import Mathlib.Data.Finset.Basic
import RpcLibrary.BinderRuns
import RpcLibrary.LeastRecent

/-! What the binder is for: a least-recently-used directory of servers, without
timestamps and without a clock. -/

namespace RpcLibrary

open Runs LeastRecent

inductive ReferenceAnswer
  | registerSuccess (status : Word)
  | locateSuccess (a : Address)
  | locateFailure

def ReferenceAnswer.encode : ReferenceAnswer → RawMessage
  | registerSuccess status => registered status
  | locateSuccess a => located a
  | locateFailure => notLocated

/-- The addresses from least to most recently active, what each of them is
registered for and the socket that owns it. -/
structure Reference where
  order : List Address
  nodup : order.Nodup
  registrations : Finset (Signature × Address)
  owner : Address → Option SocketPtr

namespace Reference

def new : Reference := ⟨[], .nil, ∅, fun _ => none⟩

def offers (ref : Reference) (f : Signature) (a : Address) : Bool := (f, a) ∈ ref.registrations

def register (ref : Reference) (f : Signature) (a : Address) (s : SocketPtr) :
    ReferenceAnswer × Reference :=
  if (f, a) ∈ ref.registrations then (.registerSuccess 1, ref)
  else (.registerSuccess 0,
    { order := touch ref.order a
      nodup := nodup_touch ref.nodup a
      registrations := insert (f, a) ref.registrations
      owner := Function.update ref.owner a (some s) })

def locate (ref : Reference) (f : Signature) : ReferenceAnswer × Reference :=
  match ref.order.find? (ref.offers f) with
  | none => (.locateFailure, ref)
  | some a => (.locateSuccess a,
    { ref with order := touch ref.order a, nodup := nodup_touch ref.nodup a })

def remove (ref : Reference) (s : SocketPtr) : Reference where
  order := ref.order.filter (fun a => ref.owner a ≠ some s)
  nodup := ref.nodup.filter _
  registrations := ref.registrations.filter (fun r => ref.owner r.2 ≠ some s)
  owner a := if ref.owner a = some s then none else ref.owner a

def step (ref : Reference) : BinderRequest → Option (Option RawMessage × Reference)
  | .register message s => message.signature.map fun f =>
    let r := ref.register f message.address s
    (some r.1.encode, r.2)
  | .locate message => message.signature.map fun f =>
    let r := ref.locate f
    (some r.1.encode, r.2)
  | .remove s => some (none, ref.remove s)

theorem register_of_known {ref : Reference} {f : Signature} {a : Address} (s : SocketPtr)
    (h : (f, a) ∈ ref.registrations) : ref.register f a s = (.registerSuccess 1, ref) := if_pos h

theorem register_of_new {ref : Reference} {f : Signature} {a : Address} (s : SocketPtr)
    (h : (f, a) ∉ ref.registrations) :
    ref.register f a s = (.registerSuccess 0,
      { order := touch ref.order a
        nodup := nodup_touch ref.nodup a
        registrations := insert (f, a) ref.registrations
        owner := Function.update ref.owner a (some s) }) := if_neg h

theorem locate_of_none {ref : Reference} {f : Signature}
    (h : ref.order.find? (ref.offers f) = none) : ref.locate f = (.locateFailure, ref) := by
  simp only [locate, h]

theorem locate_of_some {ref : Reference} {f : Signature} {a : Address}
    (h : ref.order.find? (ref.offers f) = some a) :
    ref.locate f = (.locateSuccess a,
      { ref with order := touch ref.order a, nodup := nodup_touch ref.nodup a }) := by
  simp only [locate, h]

end Reference

end RpcLibrary
