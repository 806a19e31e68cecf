import RpcLibrary.RemoteCall

/-! What a call leaves behind where something goes wrong: either the skeleton
succeeded and its outputs are in the caller's blocks, or the caller gets an error
and has its blocks as they were. -/

namespace RpcLibrary

theorem copyBlocks_getElem? {words : List Word} {args : List Bytes}
    {copies : { args // Sized words args }} (h : copyBlocks words args = some copies) {i : Nat}
    {argType : Word} (hi : words[i]? = some argType) :
    ∃ arg, args[i]? = some arg ∧ argBytes argType ≤ arg.length ∧
      copies.1[i]? = some (arg.take (argBytes argType)) := by
  induction words generalizing args i with
  | nil => simp at hi
  | cons w words ih =>
    cases args with
    | nil => cases h
    | cons arg args =>
      rw [copyBlocks] at h
      split_ifs at h with hlen
      obtain ⟨rest, hrest, rfl⟩ := Option.map_eq_some_iff.mp h
      cases i with
      | zero =>
        obtain rfl := Option.some.inj hi
        exact ⟨arg, rfl, hlen, rfl⟩
      | succ i => exact ih hrest hi

theorem mem_copiesFrom {words : List Word} {srcs : List Bytes} {n j : Nat} {bytes : Bytes} :
    (j, bytes) ∈ copiesFrom n words srcs ↔
      ∃ i argType src, j = n + i ∧ words[i]? = some argType ∧ srcs[i]? = some src ∧
        isOutput argType = true ∧ bytes = src.take (argBytes argType) := by
  induction words generalizing srcs n with
  | nil => simp [copiesFrom]
  | cons w words ih =>
    cases srcs with
    | nil => simp [copiesFrom]
    | cons src srcs =>
      constructor
      · intro h
        rw [copiesFrom] at h
        split_ifs at h with hw
        · rcases List.mem_cons.mp h with he | h
          · obtain ⟨rfl, rfl⟩ := Prod.mk.inj he
            exact ⟨0, w, src, rfl, rfl, rfl, hw, rfl⟩
          · obtain ⟨i, argType, src', hj, hi⟩ := ih.mp h
            exact ⟨i + 1, argType, src', by omega, hi⟩
        · obtain ⟨i, argType, src', hj, hi⟩ := ih.mp h
          exact ⟨i + 1, argType, src', by omega, hi⟩
      · rintro ⟨i, argType, src', rfl, hi, hs, ho, rfl⟩
        rw [copiesFrom]
        cases i with
        | zero =>
          obtain rfl := Option.some.inj hi
          obtain rfl := Option.some.inj hs
          rw [if_pos ho]
          exact List.mem_cons_self
        | succ i =>
          have hj : n + (i + 1) = n + 1 + i := by omega
          have hmem := ih.mpr ⟨i, argType, src', hj, hi, hs, ho, rfl⟩
          split_ifs
          · exact List.mem_cons_of_mem _ hmem
          · exact hmem

theorem Sized.getElem? {words : List Word} {args : List Bytes} (h : Sized words args) {i : Nat}
    {argType : Word} (hi : words[i]? = some argType) :
    ∃ arg, args[i]? = some arg ∧ arg.length = argBytes argType := by
  obtain ⟨hlt, rfl⟩ := List.getElem?_eq_some_iff.mp hi
  have hlt' : i < args.length := h.length_eq ▸ hlt
  exact ⟨args[i], List.getElem?_eq_getElem hlt', h.get hlt hlt'⟩

/-- Every output of the caller is still an output of its size in the argument
types the skeleton leaves. -/
def KeepsOutputs (words : List Word) (run : SkeletonResult) : Prop :=
  ∀ (i : Nat) (argType : Word), words[i]? = some argType → isOutput argType = true →
    ∃ left, (ArgTypes.ofArray run.argTypes).words[i]? = some left ∧ isOutput left = true ∧
      argBytes left = argBytes argType

/-- The caller has room for every output in the argument types the skeleton leaves. -/
def LeavesRoom (words : List Word) (run : SkeletonResult) : Prop :=
  ∀ (i : Nat) (left : Word), (ArgTypes.ofArray run.argTypes).words[i]? = some left →
    isOutput left = true → ∃ argType, words[i]? = some argType ∧ argBytes left ≤ argBytes argType

/-- An error keeps its meaning in the one byte its answer has for it. A success
keeps the outputs it was asked for, and its answer can be sent and copied back. -/
structure Reportable (message : Execute) (run : SkeletonResult) : Prop where
  error : run.ret ≠ 0 → run.ret.setWidth 8 ≠ 0
  outputs : run.ret = 0 → KeepsOutputs message.argTypes.words run
  answer : run.ret = 0 → ∃ success, Execute.new message.functionName run.argTypes run.args =
    some success ∧ success.serialize.buffer.length < 2147483647
  room : run.ret = 0 → LeavesRoom message.argTypes.words run

/-- The caller's end of a call that a server has an outcome for. -/
def returned (args : List Bytes) (outcome : ExecuteOutcome) : Option CallOutcome := do
  let response ← transmit outcome.response
  let result ← finishCall response args
  some ⟨result, outcome.executed⟩

def reported (message : Execute) (run : SkeletonResult) : Option CallOutcome :=
  (respond message run).bind (returned message.args)

/-- A server that answers a message can do so: the message can be sent, its words
are known, and the skeleton it finds, if any, returns what can be reported. -/
structure Served (message : Execute) (database : ServerDatabase) : Prop where
  sent : message.serialize.buffer.length < 2147483647
  words : ∀ w ∈ message.argTypes.words, WellFormedWord w
  reportable : ∀ f, findSkeleton message database = some (some f) →
    ∃ run, f message.argTypes.words message.args = some run ∧ Reportable message run

/-- The binder's `LOCATE_SUCCESS`, if that is its response, is one it can have sent. -/
def BinderExchange.Readable : BinderExchange → Prop
  | .answered response => response.getMessageType = .locateSuccess →
    ∃ success : LocateSuccess, response = success.serialize ∧ response.buffer.length < 2 ^ 31
  | _ => True

theorem BinderExchange.Readable.locates {binder : RawMessage → BinderExchange} {name : Bytes}
    {argTypes : ArgTypes} (h : (binder (LocateRequest.serialize ⟨name, argTypes⟩)).Readable) :
    ∃ located, locateServerFor binder name argTypes.words = some located := by
  rw [locateServerFor, ArgTypes.ofArray_words]
  cases hb : binder (LocateRequest.serialize ⟨name, argTypes⟩) with
  | missing => exact ⟨_, rfl⟩
  | failed => exact ⟨_, rfl⟩
  | answered response =>
    rw [hb] at h
    simp only
    split
    · exact ⟨_, rfl⟩
    · obtain ⟨success, rfl, hlen⟩ := h ‹_›
      rw [success.deserialize_serialize hlen]
      exact ⟨_, rfl⟩
    · exact ⟨_, rfl⟩

end RpcLibrary
