import RpcLibrary.Runs

/-! A queue that hands over what it was given, in the order it was given. -/

namespace Fifo

open Runs

variable {α : Type*}

inductive Request (α : Type*)
  | put (a : α)
  | get

def step (queue : List α) : Request α → Option (Option α × List α)
  | .put a => some (none, queue ++ [a])
  | .get =>
    match queue with
    | [] => none
    | a :: queue => some (some a, queue)

def Request.given? : Request α → Option α
  | put a => some a
  | get => none

def given (trace : List (Request α × Option α)) : List α := trace.filterMap fun e => e.1.given?

def handed (trace : List (Request α × Option α)) : List α := trace.filterMap Prod.snd

/-- What was there and what was given has been handed over, up to what is left. -/
theorem given_eq {trace : List (Request α × Option α)} {queue left : List α}
    (hrun : Run step queue trace left) : queue ++ given trace = handed trace ++ left := by
  induction hrun with
  | nil => simp [given, handed]
  | @cons queue middle left request answer trace hs _ ih =>
    cases request with
    | put a =>
      obtain ⟨rfl, rfl⟩ := Prod.mk.inj (Option.some.inj hs)
      simpa [given, handed, Request.given?] using ih
    | get =>
      cases queue with
      | nil => cases hs
      | cons a queue =>
        obtain ⟨rfl, rfl⟩ := Prod.mk.inj (Option.some.inj hs)
        simpa [given, handed, Request.given?] using ih

end Fifo
