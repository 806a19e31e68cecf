import RpcLibrary.Rpc

/-! What a remote call does to its caller: the blocks it writes and the status
it returns. -/

namespace RpcLibrary

def executeCall (name : Bytes) (argTypes : List Word) (args : List Bytes)
    (database : ServerDatabase) : Option CallResult := do
  let message ← Execute.new name argTypes args
  let outcome ← serveExecute message.serialize database
  finishCall outcome.response args

theorem finishCall_serialize {result : Execute} {args out : List Bytes}
    (hlen : result.serialize.buffer.length < 2 ^ 31)
    (hwrite : writeBlocks args (copyOutputArgumentsBack result) = some out) :
    finishCall result.serialize args = some ⟨0, copyOutputArgumentsBack result, out⟩ := by
  have ht : result.serialize.getMessageType = .execute := rfl
  simp only [finishCall, ht, result.deserialize_serialize hlen, Option.bind_eq_bind,
    Option.bind_some, hwrite]

theorem serveExecute_serialize {message : Execute} {database : ServerDatabase}
    (hlen : message.serialize.buffer.length < 2 ^ 31) :
    serveExecute message.serialize database = handleExecute message database := by
  simp only [serveExecute, message.deserialize_serialize hlen, Option.bind_eq_bind,
    Option.bind_some]

/-- The blocks after a call: the outputs from the server, the others untouched. -/
def mergeOutputs : List Word → List Bytes → List Bytes → List Bytes
  | argType :: argTypes, out :: outs, arg :: args =>
    (if isOutput argType then out else arg) :: mergeOutputs argTypes outs args
  | _, _, _ => []

theorem writeBlock_append {done rest : List Bytes} {dest bytes : Bytes}
    (h : bytes.length = dest.length) :
    writeBlock (done ++ dest :: rest) done.length bytes = some (done ++ bytes :: rest) := by
  have hget : (done ++ dest :: rest)[done.length]? = some dest := by
    rw [List.getElem?_append_right (Nat.le_refl _), Nat.sub_self, List.getElem?_cons_zero]
  have hset : (done ++ dest :: rest).set done.length (bytes ++ dest.drop bytes.length) =
      done ++ bytes :: rest := by
    rw [List.set_append_right _ _ (Nat.le_refl _), Nat.sub_self, List.set_cons_zero, h,
      List.drop_length, List.append_nil]
  simp only [writeBlock, hget, if_pos h.le, hset]

theorem writeBlocks_copiesFrom {words : List Word} {outs done args : List Bytes}
    (ho : Sized words outs) (ha : Sized words args) :
    writeBlocks (done ++ args) (copiesFrom done.length words outs) =
      some (done ++ mergeOutputs words outs args) := by
  induction ho generalizing done args with
  | nil =>
    cases ha
    rfl
  | @cons argType out words outs hout _ ih =>
    cases ha with
    | @cons _ arg _ args harg hargs =>
      have hnext (block : Bytes) : writeBlocks (done ++ [block] ++ args)
          (copiesFrom (done ++ [block]).length words outs) =
            some (done ++ [block] ++ mergeOutputs words outs args) := ih hargs
      simp only [List.append_assoc, List.singleton_append, List.length_append,
        List.length_singleton] at hnext
      cases hw : isOutput argType with
      | true =>
        have hwrite : writeBlock (done ++ arg :: args) done.length (out.take (argBytes argType)) =
            some (done ++ out :: args) := by
          rw [← hout, List.take_length]
          exact writeBlock_append (hout.trans harg.symm)
        simp only [copiesFrom, hw, if_true, writeBlocks, hwrite, Option.bind_eq_bind,
          Option.bind_some, hnext out, mergeOutputs]
      | false =>
        simp only [copiesFrom, hw, Bool.false_eq_true, if_false, hnext arg, mergeOutputs]

theorem mergeOutputs_getElem? {words : List Word} {outs args : List Bytes} (ho : Sized words outs)
    (ha : Sized words args) {i : Nat} {argType : Word} (hi : words[i]? = some argType) :
    (mergeOutputs words outs args)[i]? = if isOutput argType then outs[i]? else args[i]? := by
  induction ho generalizing args i with
  | nil => simp at hi
  | cons _ _ ih =>
    cases ha with
    | cons _ hargs =>
      cases i with
      | zero =>
        obtain rfl := Option.some.inj hi
        simp only [mergeOutputs, List.getElem?_cons_zero]
        split_ifs <;> rfl
      | succ i =>
        simp only [mergeOutputs, List.getElem?_cons_succ] at hi ⊢
        exact ih hargs hi

theorem length_mergeOutputs {words : List Word} {outs args : List Bytes} (ho : Sized words outs)
    (ha : Sized words args) : (mergeOutputs words outs args).length = args.length := by
  induction ho generalizing args with
  | nil =>
    cases ha
    rfl
  | cons _ _ ih =>
    cases ha with
    | cons _ hargs => rw [mergeOutputs, List.length_cons, List.length_cons, ih hargs]

/-- A call that reaches a skeleton working in place returns 0 and leaves the
caller's blocks as a local call would, except for those that are only inputs. -/
theorem remote_call_transparent {name : Bytes} {argTypes : ArgTypes} {args outs : List Bytes}
    {database : ServerDatabase} {f : Skeleton}
    (hwords : ∀ w ∈ argTypes.words, WellFormedWord w) (hargs : Sized argTypes.words args)
    (hlen : (Execute.mk name argTypes args hargs).serialize.buffer.length < 2 ^ 31)
    (hf : ∀ signature, signatureOfArgTypes name argTypes = some signature →
      database.get? signature = some f)
    (hrun : f argTypes.words args = some ⟨0, argTypes.words, outs⟩)
    (houts : Sized argTypes.words outs) :
    ∃ result, executeCall name argTypes.words args database = some result ∧ result.status = 0 ∧
      result.args.length = args.length ∧
      ∀ (i : Nat) (argType : Word), argTypes.words[i]? = some argType →
        result.args[i]? = if isOutput argType then outs[i]? else args[i]? := by
  have hsome : (signatureOfArgTypes name argTypes).isSome = true :=
    signatureOfArgTypes_isSome_iff.mpr hwords
  obtain ⟨signature, hsignature⟩ := Option.isSome_iff_exists.mp hsome
  have hfind : findSkeleton ⟨name, argTypes, args, hargs⟩ database = some (some f) := by
    rw [findSkeleton, hsignature, Option.map_some, hf signature hsignature]
  have hhandle : handleExecute ⟨name, argTypes, args, hargs⟩ database =
      some ⟨some ⟨0, argTypes.words, outs⟩, (Execute.mk name argTypes outs houts).serialize⟩ := by
    rw [handleExecute_of_found hfind, hrun, Option.bind_some, respond, if_neg (by simp),
      Execute.new_of_sized houts]
    rfl
  have hlength : (Execute.mk name argTypes outs houts).serialize.buffer.length =
      (Execute.mk name argTypes args hargs).serialize.buffer.length :=
    length_serialize_of_argTypes rfl rfl
  have hwrite : writeBlocks args (copyOutputArgumentsBack ⟨name, argTypes, outs, houts⟩) =
      some (mergeOutputs argTypes.words outs args) :=
    @writeBlocks_copiesFrom argTypes.words outs [] args houts hargs
  have hfinish := finishCall_serialize (hlength ▸ hlen) hwrite
  refine ⟨⟨0, copyOutputArgumentsBack ⟨name, argTypes, outs, houts⟩,
    mergeOutputs argTypes.words outs args⟩, ?_, rfl, length_mergeOutputs houts hargs,
    fun i argType hi => mergeOutputs_getElem? houts hargs hi⟩
  simp only [executeCall, Execute.new_of_sized hargs, Option.bind_eq_bind, Option.bind_some,
    serveExecute_serialize hlen, hhandle]
  exact hfinish

def sampleArgTypes : ArgTypes := .ofArray [0x40010000, 0x80010000]

def sampleSkeleton (ret : Word) : Skeleton := fun argTypes _ => some ⟨ret, argTypes, [[7], [8]]⟩

def sampleDatabase (ret : Word) : ServerDatabase :=
  OrderedMap.assign ∅ ⟨[102], [⟨.scalar, .output, .char⟩, ⟨.scalar, .input, .char⟩]⟩
    (sampleSkeleton ret)

theorem sized_sample : Sized sampleArgTypes.words [[0], [9]] :=
  .cons (by decide) (.cons (by decide) .nil)

theorem remote_call_transparent_sample :
    ∃ result, executeCall [102] sampleArgTypes.words [[0], [9]] (sampleDatabase 0) = some result ∧
      result.status = 0 ∧ result.args = [[7], [9]] := by
  have hwords : ∀ w ∈ sampleArgTypes.words, WellFormedWord w :=
    List.forall_mem_cons.mpr ⟨by decide, List.forall_mem_singleton.mpr (by decide)⟩
  have hlen : (Execute.mk [102] sampleArgTypes [[0], [9]] sized_sample).serialize.buffer.length <
      2 ^ 31 := show 20 < 2 ^ 31 by decide
  have houts : Sized sampleArgTypes.words [[7], [8]] := .cons (by decide) (.cons (by decide) .nil)
  have hf : ∀ signature, signatureOfArgTypes [102] sampleArgTypes = some signature →
      (sampleDatabase 0).get? signature = some (sampleSkeleton 0) := by
    intro signature h
    have hs : signatureOfArgTypes [102] sampleArgTypes =
        some ⟨[102], [⟨.scalar, .output, .char⟩, ⟨.scalar, .input, .char⟩]⟩ := by decide
    obtain rfl := Option.some.inj (hs.symm.trans h)
    rfl
  obtain ⟨result, hcall, hstatus, hlength, hblocks⟩ :=
    remote_call_transparent hwords sized_sample hlen hf rfl houts
  refine ⟨result, hcall, hstatus, List.ext_getElem? fun i => ?_⟩
  match i with
  | 0 => exact hblocks 0 0x40010000 (by decide)
  | 1 => exact hblocks 1 0x80010000 (by decide)
  | i + 2 =>
    rw [List.getElem?_eq_none (by rw [hlength]; simp), List.getElem?_eq_none (by simp)]

theorem finishCall_executeFailure (status : Word) (args : List Bytes) :
    finishCall (StatusMessage.serialize (⟨status⟩ : ExecuteFailure)) args =
      some (.failed ((status.setWidth 8).signExtend 32) args) := rfl

def sampleBinder (_ : RawMessage) : BinderExchange :=
  .answered (LocateSuccess.serialize ⟨[104], 80⟩)

def sampleServers (ret : Word) (_ : Address) : ServerExchange := .answered (sampleDatabase ret)

end RpcLibrary
