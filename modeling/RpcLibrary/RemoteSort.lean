import RpcLibrary.LocalCall
import RpcLibrary.ServerFunctions

/-! What a client gets back from a server that sorts: an array of `long` in
memory, the skeleton over it, and the call that carries it there and back. -/

namespace RpcLibrary

open BubbleSort

def longMemory (x : Long) : Bytes :=
  intMemory (x.setWidth 32) ++ intMemory ((x >>> 32).setWidth 32)

def memoryOfLongs (a : List Long) : Bytes := a.flatMap longMemory

def longsOfMemory : Bytes → List Long
  | b0 :: b1 :: b2 :: b3 :: b4 :: b5 :: b6 :: b7 :: rest =>
    (intOfMemory [b4, b5, b6, b7] ++ intOfMemory [b0, b1, b2, b3] : BitVec (32 + 32)) ::
      longsOfMemory rest
  | _ => []

def f3Skel : Skeleton := fun argTypes args =>
  match args with
  | [] => none
  | block :: rest => do
    let a ← f3 (longsOfMemory block)
    some ⟨0, argTypes, memoryOfLongs a :: rest⟩

@[simp] theorem length_memoryOfLongs (a : List Long) : (memoryOfLongs a).length = 8 * a.length := by
  induction a with
  | nil => rfl
  | cons x a ih =>
    have hcons : memoryOfLongs (x :: a) = longMemory x ++ memoryOfLongs a := rfl
    rw [hcons, List.length_append, ih, List.length_cons]
    change 8 + _ = _
    omega

theorem longsOfMemory_memoryOfLongs (a : List Long) : longsOfMemory (memoryOfLongs a) = a := by
  induction a with
  | nil => rfl
  | cons x a ih =>
    have hcons : longsOfMemory (memoryOfLongs (x :: a)) =
        (intOfMemory (intMemory ((x >>> 32).setWidth 32)) ++
          intOfMemory (intMemory (x.setWidth 32)) : BitVec (32 + 32)) ::
            longsOfMemory (memoryOfLongs a) := rfl
    have hlong : ((x >>> 32).setWidth 32 ++ x.setWidth 32 : BitVec (32 + 32)) = x := by
      apply BitVec.eq_of_getLsbD_eq
      intro i hi
      rw [BitVec.getLsbD_append]
      by_cases hlow : i < 32
      · simp [hlow]
      · simp [hlow, show i - 32 < 32 by omega, show 32 + (i - 32) = i by omega]
    rw [hcons, ih, intOfMemory_intMemory, intOfMemory_intMemory, hlong]

theorem f3Skel_eq {a b : List Long} {argTypes : List Word} (h : f3 a = some b) :
    f3Skel argTypes [memoryOfLongs a] = some ⟨0, argTypes, [memoryOfLongs b]⟩ := by
  simp only [f3Skel, longsOfMemory_memoryOfLongs, h, Option.bind_eq_bind, Option.bind_some]

/-- An array that is both input and output, of elements of the type. -/
theorem bothArray_of_argumentOf {w : Word} {dataType : DataType}
    (h : argumentOf w = some ⟨.array, .both, dataType⟩) :
    dataTypeOf w = some dataType ∧ isInputOutput w = true := by
  simp only [argumentOf, Option.bind_eq_bind, Option.bind_eq_some_iff, Option.some.injEq,
    Argument.mk.injEq] at h
  obtain ⟨_, htype, _, hdirection, -, rfl, rfl⟩ := h
  refine ⟨htype, ?_⟩
  simp only [directionOf] at hdirection
  split_ifs at hdirection <;> first | assumption | cases hdirection

theorem getArgLength_lt (w : Word) : (getArgLength w).toNat < 2 ^ 16 := by
  have hmask : (w &&& ((1 <<< 16) - 1)).toNat < 2 ^ 16 := by
    rw [BitVec.toNat_and]
    exact lt_of_le_of_lt Nat.and_le_right (by decide)
  rw [getArgLength]
  split_ifs
  · decide
  · exact hmask

theorem argBytes_of_long {w : Word} (h : dataTypeOf w = some .long) :
    argBytes w = 8 * (getArgLength w).toNat := by
  have htype : getArgType w = ARG_LONG := by
    simp only [dataTypeOf] at h
    split_ifs at h <;> first | assumption | cases h
  have hlt := getArgLength_lt w
  have hmsb : (getArgLength w).msb = false := by
    rw [BitVec.msb_eq_false_iff_two_mul_lt]
    omega
  have hsize : (getSizeOfArgType ARG_LONG).signExtend 64 = 8#64 := by decide
  rw [argBytes, htype, hsize, BitVec.signExtend_eq_setWidth_of_msb_false hmsb, BitVec.toNat_mul,
    BitVec.toNat_setWidth]
  simp only [BitVec.toNat_ofNat]
  omega

/-- A call answered by a server whose skeleton works in place, from the client's
blocks to the ones it is left with. -/
theorem callServer_eq {name : Bytes} {argTypes : ArgTypes} {args outs : List Bytes}
    {database : ServerDatabase} {f : Skeleton} (hargs : Sized argTypes.words args)
    (hlen : (Execute.mk name argTypes args hargs).serialize.buffer.length < 2147483647)
    (hfind : findSkeleton ⟨name, argTypes, args, hargs⟩ database = some (some f))
    (hrun : f argTypes.words args = some ⟨0, argTypes.words, outs⟩)
    (houts : Sized argTypes.words outs) :
    callServer (.answered database) name argTypes.words args =
      some ⟨⟨0, copyOutputArgumentsBack ⟨name, argTypes, outs, houts⟩,
        mergeOutputs argTypes.words outs args⟩, some ⟨0, argTypes.words, outs⟩⟩ := by
  have hlength : (Execute.mk name argTypes outs houts).serialize.buffer.length =
      (Execute.mk name argTypes args hargs).serialize.buffer.length :=
    length_serialize_of_argTypes rfl rfl
  have hhandle : handleExecute ⟨name, argTypes, args, hargs⟩ database =
      some ⟨some ⟨0, argTypes.words, outs⟩, (Execute.mk name argTypes outs houts).serialize⟩ := by
    rw [handleExecute_of_found hfind, hrun, Option.bind_some, respond, if_neg (by simp),
      Execute.new_of_sized houts]
    rfl
  have hserve : serveExecute (Execute.mk name argTypes args hargs).serialize database = _ :=
    (serveExecute_serialize (by omega)).trans hhandle
  have hfinish : finishCall (Execute.mk name argTypes outs houts).serialize args = _ :=
    finishCall_serialize (by omega)
      (@writeBlocks_copiesFrom argTypes.words outs [] args houts hargs)
  have hrequest : transmit (Execute.mk name argTypes args hargs).serialize = some _ := if_pos hlen
  have hresponse : transmit (Execute.mk name argTypes outs houts).serialize = some _ :=
    if_pos (by omega)
  simp only [callServer, Execute.new_of_sized hargs, Option.bind_eq_bind, Option.bind_some,
    hrequest, hserve, hresponse, hfinish]
  rfl

def f3Name : Bytes := [102, 51]

def f3Signature : Signature := ⟨f3Name, [⟨.array, .both, .long⟩]⟩

/-- A client that calls the registered sorting function for an array that is as
long as its word says, tells no more elements than it has and holds those in the
range of an `int` gets them back in order, largest first, and the rest of the
array as it was. -/
theorem remote_sort {binder : RawMessage → BinderExchange} {servers : Address → ServerExchange}
    {address : Address} {database : ServerDatabase} {w : Word} {a : List Long} {a0 : Long}
    (hlocate : locateServerFor binder f3Name [w] = some (.ok address))
    (hserver : servers address = .answered database)
    (hdatabase : database.get? f3Signature = some f3Skel)
    (hw : argumentOf w = some ⟨.array, .both, .long⟩) (hlength : (getArgLength w).toNat = a.length)
    (ha : a[0]? = some a0) (hle : lengthIn a0 ≤ a.length)
    (hfits : ∀ x ∈ a.take (lengthIn a0), FitsInt x) :
    ∃ outcome sorted, rpcCall binder servers f3Name [w] [memoryOfLongs a] = some outcome ∧
      outcome.result.status = 0 ∧
      outcome.result.args = [memoryOfLongs (sorted ++ a.drop (lengthIn a0))] ∧
      sorted.Perm (a.take (lengthIn a0)) ∧ sorted.Pairwise fun x y => y.toInt ≤ x.toInt := by
  obtain ⟨htype, hboth⟩ := bothArray_of_argumentOf hw
  have hbytes := argBytes_of_long htype
  have hshort := getArgLength_lt w
  have hnonzero : ∀ v ∈ [w], v ≠ 0 := List.forall_mem_singleton.mpr fun h => by
    rw [h] at htype
    cases htype
  have hsized (b : List Long) (hb : b.length = a.length) : Sized [w] [memoryOfLongs b] :=
    .cons (by rw [length_memoryOfLongs, hbytes, hlength, hb]) .nil
  have hsort := f3_eq ha hle hfits
  have hperm : (sweeps BitVec.toInt (lengthIn a0) (a.take (lengthIn a0))).Perm
      (a.take (lengthIn a0)) := sweeps_perm (lengthIn a0) _
  have hkept : (sweeps BitVec.toInt (lengthIn a0) (a.take (lengthIn a0)) ++
      a.drop (lengthIn a0)).length = a.length := by
    rw [List.length_append, hperm.length_eq, ← List.length_append, List.take_append_drop]
  have hfind : findSkeleton ⟨f3Name, ⟨[w], hnonzero⟩, [memoryOfLongs a], hsized a rfl⟩ database =
      some (some f3Skel) := by
    have hsignature : signatureOfArgTypes f3Name ⟨[w], hnonzero⟩ = some f3Signature := by
      simp [signatureOfArgTypes, hw, f3Signature]
    rw [findSkeleton, hsignature, Option.map_some, hdatabase]
  have hlen : (Execute.mk f3Name ⟨[w], hnonzero⟩ [memoryOfLongs a]
      (hsized a rfl)).serialize.buffer.length < 2147483647 := by
    simp only [Execute.serialize, List.length_cons, List.length_append, length_encodeString,
      length_encodeArgTypes, List.flatten_singleton, length_memoryOfLongs, f3Name, List.length_nil]
    omega
  have hcall := callServer_eq (hsized a rfl) hlen hfind (f3Skel_eq hsort) (hsized _ hkept)
  rw [← hserver] at hcall
  refine ⟨_, sweeps BitVec.toInt (lengthIn a0) (a.take (lengthIn a0)),
    (rpcCall_of_located hlocate).trans hcall, rfl, ?_, hperm, ?_⟩
  · have hout : isOutput w = true := by rw [isOutput, hboth, Bool.or_true]
    simp only [mergeOutputs, hout, if_true]
  · exact sweeps_sorted (List.length_take_le ..)

def sortingDatabase : ServerDatabase := OrderedMap.assign ∅ f3Signature f3Skel

def sortingServers (_ : Address) : ServerExchange := .answered sortingDatabase

theorem remote_sort_sample :
    ∃ outcome sorted, rpcCall sampleBinder sortingServers f3Name [0xC0040003]
        [memoryOfLongs [3, 1, 2]] = some outcome ∧ outcome.result.status = 0 ∧
      outcome.result.args = [memoryOfLongs (sorted ++ [])] ∧ sorted.Perm [3, 1, 2] := by
  have hlocate : locateServerFor sampleBinder f3Name [0xC0040003] = some (.ok ⟨[104], 80⟩) := by
    decide
  have hdatabase : sortingDatabase.get? f3Signature = some f3Skel := by
    rw [sortingDatabase, OrderedMap.get?_assign, if_pos rfl]
  have hfits : ∀ x ∈ ([3, 1, 2] : List Long).take (lengthIn 3), FitsInt x := by
    simp [lengthIn, FitsInt]
  obtain ⟨outcome, sorted, hcall, hstatus, hargs, hperm, -⟩ := @remote_sort _ sortingServers
    _ _ _ [3, 1, 2] 3 hlocate rfl hdatabase (by decide) (by decide) rfl (by decide) hfits
  exact ⟨outcome, sorted, hcall, hstatus, hargs, hperm⟩

end RpcLibrary
