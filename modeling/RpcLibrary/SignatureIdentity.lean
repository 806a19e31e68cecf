import Mathlib.Data.List.Forall2
import RpcLibrary.Signature

/-! What a signature tells of an argument word: its type byte, its two direction
bits, and whether its length is zero. -/

namespace RpcLibrary

/-- A shift that brings in the sign and a mask that takes it away again. -/
theorem sshiftRight_and_mask (w : Word) (start len : Nat) (h : start + len ≤ 32) :
    w.sshiftRight start &&& BitVec.ofNat 32 (2 ^ len - 1) =
      (w.extractLsb' start len).setWidth 32 := by
  apply BitVec.eq_of_getLsbD_eq
  intro i hi
  rw [BitVec.getLsbD_and, BitVec.getLsbD_sshiftRight, BitVec.getLsbD_ofNat,
    Nat.testBit_two_pow_sub_one, BitVec.getLsbD_setWidth, BitVec.getLsbD_extractLsb']
  by_cases hl : i < len
  · have hs : start + i < 32 := by omega
    have hw : ¬ 32 ≤ i := by omega
    simp [hl, hs, hi, hw]
  · simp [hl]

theorem setWidth_inj {n : Nat} (h : n ≤ 32) {x y : BitVec n} :
    x.setWidth 32 = y.setWidth 32 ↔ x = y := by
  refine ⟨fun he => BitVec.eq_of_toNat_eq ?_, fun he => by rw [he]⟩
  have hn := congrArg BitVec.toNat he
  rwa [BitVec.toNat_setWidth_of_le h, BitVec.toNat_setWidth_of_le h] at hn

theorem getArgType_eq (w : Word) : getArgType w = (w.extractLsb' 16 8).setWidth 32 :=
  sshiftRight_and_mask w 16 8 (by decide)

theorem and_length_mask (w : Word) :
    w &&& ((1 <<< 16) - 1) = (w.extractLsb' 0 16).setWidth 32 := by
  have h := sshiftRight_and_mask w 0 16 (by decide)
  rwa [BitVec.sshiftRight_zero] at h

theorem and_direction_mask (w : Word) :
    w.sshiftRight 30 &&& 0x3 = (w.extractLsb' 30 2).setWidth 32 :=
  sshiftRight_and_mask w 30 2 (by decide)

theorem getArgType_eq_iff {w : Word} (code : Nat) (h : code < 2 ^ 32) :
    getArgType w = BitVec.ofNat 32 code ↔ (w.extractLsb' 16 8).toNat = code := by
  rw [← BitVec.toNat_inj, getArgType_eq, BitVec.toNat_setWidth_of_le (by decide),
    BitVec.toNat_ofNat, Nat.mod_eq_of_lt h]

theorem dataTypeOf_eq_some {w : Word} {dataType : DataType} :
    dataTypeOf w = some dataType ↔ (w.extractLsb' 16 8).toNat = dataType.rank + 1 := by
  have hchar : getArgType w = ARG_CHAR ↔ _ := getArgType_eq_iff 1 (by decide)
  have hshort : getArgType w = ARG_SHORT ↔ _ := getArgType_eq_iff 2 (by decide)
  have hint : getArgType w = ARG_INT ↔ _ := getArgType_eq_iff 3 (by decide)
  have hlong : getArgType w = ARG_LONG ↔ _ := getArgType_eq_iff 4 (by decide)
  have hdouble : getArgType w = ARG_DOUBLE ↔ _ := getArgType_eq_iff 5 (by decide)
  have hfloat : getArgType w = ARG_FLOAT ↔ _ := getArgType_eq_iff 6 (by decide)
  simp only [dataTypeOf, hchar, hshort, hint, hlong, hdouble, hfloat]
  generalize (w.extractLsb' 16 8).toNat = code
  split_ifs <;> cases dataType <;> simp [DataType.rank] <;> omega

theorem dataTypeOf_isSome {w : Word} :
    (dataTypeOf w).isSome = true ↔
      1 ≤ (w.extractLsb' 16 8).toNat ∧ (w.extractLsb' 16 8).toNat ≤ 6 := by
  simp only [Option.isSome_iff_exists, dataTypeOf_eq_some]
  constructor
  · rintro ⟨dataType, h⟩
    have hrank : dataType.rank ≤ 5 := by cases dataType <;> decide
    omega
  · rintro ⟨hlow, hhigh⟩
    have hcodes : ∀ code : Fin 6, ∃ dataType : DataType, dataType.rank = code.val := by
      intro code
      match code with
      | 0 => exact ⟨.char, rfl⟩
      | 1 => exact ⟨.short, rfl⟩
      | 2 => exact ⟨.int, rfl⟩
      | 3 => exact ⟨.long, rfl⟩
      | 4 => exact ⟨.double, rfl⟩
      | 5 => exact ⟨.float, rfl⟩
    obtain ⟨dataType, hrank⟩ := hcodes ⟨(w.extractLsb' 16 8).toNat - 1, by omega⟩
    exact ⟨dataType, by simp only at hrank; omega⟩

theorem dataTypeOf_eq_iff {w v : Word} (hw : (dataTypeOf w).isSome = true) :
    dataTypeOf w = dataTypeOf v ↔ w.extractLsb' 16 8 = v.extractLsb' 16 8 := by
  obtain ⟨dataType, hd⟩ := Option.isSome_iff_exists.mp hw
  have hcode := dataTypeOf_eq_some.mp hd
  rw [hd, eq_comm, dataTypeOf_eq_some, ← hcode, BitVec.toNat_inj, eq_comm]

theorem directionOf_eq (w : Word) :
    directionOf w =
      match w.getLsbD 31, w.getLsbD 30 with
      | true, true => some .both
      | true, false => some .input
      | false, true => some .output
      | false, false => none := by
  have hbits : w.extractLsb' 30 2 =
      BitVec.ofBool (w.getLsbD 31) ++ BitVec.ofBool (w.getLsbD 30) := by
    apply BitVec.eq_of_getLsbD_eq
    intro i hi
    rw [BitVec.getLsbD_extractLsb', BitVec.getLsbD_append]
    match i, hi with
    | 0, _ => simp
    | 1, _ => simp
  simp only [directionOf, isOnlyInput, isOnlyOutput, isInputOutput, and_direction_mask, hbits]
  cases w.getLsbD 31 <;> cases w.getLsbD 30 <;> decide

theorem directionOf_isSome {w : Word} :
    (directionOf w).isSome = true ↔ w.getLsbD 30 = true ∨ w.getLsbD 31 = true := by
  rw [directionOf_eq]
  cases w.getLsbD 31 <;> cases w.getLsbD 30 <;> decide

theorem directionOf_eq_iff {w v : Word} :
    directionOf w = directionOf v ↔
      w.getLsbD 30 = v.getLsbD 30 ∧ w.getLsbD 31 = v.getLsbD 31 := by
  rw [directionOf_eq, directionOf_eq]
  cases w.getLsbD 31 <;> cases w.getLsbD 30 <;> cases v.getLsbD 31 <;> cases v.getLsbD 30 <;>
    decide

theorem dimensionOf_eq_iff {w v : Word} :
    dimensionOf w = dimensionOf v ↔ (w.extractLsb' 0 16 = 0 ↔ v.extractLsb' 0 16 = 0) := by
  have hzero : ∀ u : Word, u &&& ((1 <<< 16) - 1) = 0 ↔ u.extractLsb' 0 16 = 0 := by
    intro u
    rw [and_length_mask]
    exact setWidth_inj (n := 16) (y := 0) (by decide)
  have hvalue : ∀ u : Word, dimensionOf u = .scalar ↔ u.extractLsb' 0 16 = 0 := by
    intro u
    rw [dimensionOf, ← hzero u]
    split_ifs with h
    · exact ⟨fun _ => h, fun _ => rfl⟩
    · exact ⟨fun he => (by cases he), fun he => absurd he h⟩
  rw [← hvalue w, ← hvalue v]
  cases dimensionOf w <;> cases dimensionOf v <;> decide

/-- A word with a type code from 1 to 6 and at least one direction bit, in terms of its bits. -/
def KnownWord (w : Word) : Prop :=
  (1 ≤ (w.extractLsb' 16 8).toNat ∧ (w.extractLsb' 16 8).toNat ≤ 6) ∧
    (w.getLsbD 30 = true ∨ w.getLsbD 31 = true)

instance (w : Word) : Decidable (KnownWord w) := inferInstanceAs (Decidable (_ ∧ _))

theorem wellFormedWord_iff {w : Word} : WellFormedWord w ↔ KnownWord w :=
  and_congr dataTypeOf_isSome directionOf_isSome

/-- Two words that agree on bits 16 to 23, on bits 30 and 31, and on whether
their low 16 bits are zero. -/
structure SameArgument (w v : Word) : Prop where
  type : w.extractLsb' 16 8 = v.extractLsb' 16 8
  output : w.getLsbD 30 = v.getLsbD 30
  input : w.getLsbD 31 = v.getLsbD 31
  scalar : w.extractLsb' 0 16 = 0 ↔ v.extractLsb' 0 16 = 0

theorem argumentOf_eq_iff {w v : Word} (hw : WellFormedWord w) (hv : WellFormedWord v) :
    argumentOf w = argumentOf v ↔ SameArgument w v := by
  have htype := dataTypeOf_eq_iff (v := v) hw.1
  obtain ⟨dataType, hd⟩ := Option.isSome_iff_exists.mp hw.1
  obtain ⟨direction, hdir⟩ := Option.isSome_iff_exists.mp hw.2
  obtain ⟨dataType', hd'⟩ := Option.isSome_iff_exists.mp hv.1
  obtain ⟨direction', hdir'⟩ := Option.isSome_iff_exists.mp hv.2
  have hdirection := directionOf_eq_iff (w := w) (v := v)
  have hdimension := dimensionOf_eq_iff (w := w) (v := v)
  rw [hd, hd', Option.some.injEq] at htype
  rw [hdir, hdir', Option.some.injEq] at hdirection
  simp only [argumentOf, hd, hd', hdir, hdir', Option.bind_eq_bind, Option.bind_some,
    Option.some.injEq, Argument.mk.injEq, htype, hdirection, hdimension]
  constructor
  · rintro ⟨hlen, ⟨hout, hin⟩, ht⟩
    exact ⟨ht, hout, hin, hlen⟩
  · intro h
    exact ⟨h.scalar, ⟨h.output, h.input⟩, h.type⟩

theorem exists_arguments_of_cons {w : Word} {words : List Word}
    (h : ∀ v ∈ w :: words, WellFormedWord v) :
    ∃ a as, argumentOf w = some a ∧ words.mapM argumentOf = some as ∧
      (w :: words).mapM argumentOf = some (a :: as) := by
  obtain ⟨hw, hws⟩ := List.forall_mem_cons.mp h
  obtain ⟨a, ha⟩ := Option.isSome_iff_exists.mp (argumentOf_isSome.mpr hw)
  obtain ⟨as, has⟩ := Option.isSome_iff_exists.mp (mapM_argumentOf_isSome_iff.mpr hws)
  exact ⟨a, as, ha, has, by simp [ha, has]⟩

theorem mapM_argumentOf_eq_iff {words words' : List Word} (h : ∀ w ∈ words, WellFormedWord w)
    (h' : ∀ w ∈ words', WellFormedWord w) :
    words.mapM argumentOf = words'.mapM argumentOf ↔ List.Forall₂ SameArgument words words' := by
  induction words generalizing words' with
  | nil =>
    cases words' with
    | nil => simp
    | cons v words' =>
      obtain ⟨b, bs, -, -, hcons'⟩ := exists_arguments_of_cons h'
      simp [hcons']
  | cons w words ih =>
    obtain ⟨a, as, ha, has, hcons⟩ := exists_arguments_of_cons h
    cases words' with
    | nil => simp [hcons]
    | cons v words' =>
      obtain ⟨b, bs, hb, hbs, hcons'⟩ := exists_arguments_of_cons h'
      have hhead := argumentOf_eq_iff (h w List.mem_cons_self) (h' v List.mem_cons_self)
      have htail := ih (List.forall_mem_cons.mp h).2 (List.forall_mem_cons.mp h').2
      rw [ha, hb, Option.some.injEq] at hhead
      rw [has, hbs, Option.some.injEq] at htail
      rw [hcons, hcons', Option.some.injEq, List.cons.injEq, hhead, htail, List.forall₂_cons]

/-- Two functions have one signature when and only when they have one name and
as many argument words, which agree position by position. -/
theorem signature_eq_iff {name name' : Bytes} {argTypes argTypes' : ArgTypes}
    (h : ∀ w ∈ argTypes.words, KnownWord w) (h' : ∀ w ∈ argTypes'.words, KnownWord w) :
    ∃ signature signature', signatureOfArgTypes name argTypes = some signature ∧
      signatureOfArgTypes name' argTypes' = some signature' ∧
      (signature = signature' ↔ name = name' ∧
        argTypes.words.length = argTypes'.words.length ∧
        ∀ i hi hi', SameArgument (argTypes.words.get ⟨i, hi⟩) (argTypes'.words.get ⟨i, hi'⟩)) := by
  have hwords : ∀ w ∈ argTypes.words, WellFormedWord w :=
    fun w hw => wellFormedWord_iff.mpr (h w hw)
  have hwords' : ∀ w ∈ argTypes'.words, WellFormedWord w :=
    fun w hw => wellFormedWord_iff.mpr (h' w hw)
  obtain ⟨list, hlist⟩ := Option.isSome_iff_exists.mp (mapM_argumentOf_isSome_iff.mpr hwords)
  obtain ⟨list', hlist'⟩ := Option.isSome_iff_exists.mp (mapM_argumentOf_isSome_iff.mpr hwords')
  have hsame := mapM_argumentOf_eq_iff hwords hwords'
  rw [hlist, hlist', Option.some.injEq, List.forall₂_iff_get] at hsame
  refine ⟨⟨name, list⟩, ⟨name', list'⟩, ?_, ?_, ?_⟩
  · rw [signatureOfArgTypes, hlist]
    rfl
  · rw [signatureOfArgTypes, hlist']
    rfl
  · rw [Signature.mk.injEq, hsame]

/-- Array lengths 5 and 7 and other bits 24 to 29 make no difference. -/
theorem signature_eq_sample :
    ∃ signature, signatureOfArgTypes [102] ⟨[0x80030005], by simp⟩ = some signature ∧
      signatureOfArgTypes [102] ⟨[0xa9030007], by simp⟩ = some signature := by
  have hknown : KnownWord 0x80030005 ∧ KnownWord 0xa9030007 := by decide
  have hsame : SameArgument 0x80030005 0xa9030007 := ⟨rfl, rfl, rfl, by decide⟩
  obtain ⟨signature, signature', hs, hs', hiff⟩ :=
    @signature_eq_iff [102] [102] ⟨[0x80030005], by simp⟩ ⟨[0xa9030007], by simp⟩
      (List.forall_mem_singleton.mpr hknown.1) (List.forall_mem_singleton.mpr hknown.2)
  have heq : signature = signature' := by
    refine hiff.mpr ⟨rfl, rfl, fun i hi hi' => ?_⟩
    obtain rfl : i = 0 := Nat.lt_one_iff.mp hi
    exact hsame
  exact ⟨signature, hs, heq ▸ hs'⟩

end RpcLibrary
