import RpcLibrary.OrderedSet

/-! Ordered maps as ordered sets of entries. Assignment through an equivalent
key replaces the value and leaves the stored key object as it was. -/

abbrev OrderedMap (K V : Type*) {κ : Type*} [LinearOrder κ] (key : K → κ) :=
  OrderedSet (K × V) (fun e => key e.1)

namespace OrderedMap

variable {K V κ : Type*} [LinearOrder κ] {key : K → κ}

def get? (m : OrderedMap K V key) (k : K) : Option V := (m.find? (key k)).map Prod.snd

/-- The key object the map holds in the place of `k`, or `k` when it holds none. -/
def storedKey (m : OrderedMap K V key) (k : K) : K := ((m.find? (key k)).map Prod.fst).getD k

def assign (m : OrderedMap K V key) (k : K) (v : V) : OrderedMap K V key :=
  (m.erase (key k)).insert (m.storedKey k, v)

def remove (m : OrderedMap K V key) (k : K) : OrderedMap K V key := OrderedSet.erase m (key k)

def getOrCreate (m : OrderedMap K V key) (k : K) (v : V) : V × OrderedMap K V key :=
  match m.get? k with
  | some w => (w, m)
  | none => (v, m.insert (k, v))

def mapValues (f : V → V) (m : OrderedMap K V key) : OrderedMap K V key :=
  ⟨m.elems.map (fun e => (e.1, f e.2)), List.pairwise_map.mpr m.sorted⟩

theorem get?_eq_some_iff {m : OrderedMap K V key} {k : K} {v : V} :
    m.get? k = some v ↔ ∃ k', (k', v) ∈ m ∧ key k' = key k := by
  simp only [get?, Option.map_eq_some_iff, OrderedSet.find?_eq_some_iff, Prod.exists,
    exists_eq_right]

theorem get?_eq_none_iff {m : OrderedMap K V key} {k : K} :
    m.get? k = none ↔ m.contains (key k) = false := by
  rw [get?, Option.map_eq_none_iff, OrderedSet.find?_eq_none_iff]

@[simp] theorem get?_empty (k : K) : (∅ : OrderedMap K V key).get? k = none := rfl

theorem storedKey_of_mem {m : OrderedMap K V key} {k k' : K} {v : V}
    (h : (k', v) ∈ m) (hk : key k' = key k) : m.storedKey k = k' := by
  have hf : m.find? (key k) = some (k', v) := OrderedSet.find?_eq_some_iff.mpr ⟨h, hk⟩
  simp [storedKey, hf]

theorem storedKey_of_not_contains {m : OrderedMap K V key} {k : K}
    (h : m.contains (key k) = false) : m.storedKey k = k := by
  simp [storedKey, OrderedSet.find?_eq_none_iff.mpr h]

theorem key_storedKey (m : OrderedMap K V key) (k : K) :
    key (m.storedKey k) = key k := by
  cases hf : m.find? (key k) with
  | none => simp [storedKey, hf]
  | some e => simpa [storedKey, hf] using (OrderedSet.find?_eq_some_iff.mp hf).2

theorem mem_assign {m : OrderedMap K V key} {k : K} {v : V} {e : K × V} :
    e ∈ m.assign k v ↔ (e ∈ m ∧ key e.1 ≠ key k) ∨ e = (m.storedKey k, v) := by
  simp [assign, OrderedSet.mem_insert, key_storedKey]

theorem get?_assign {m : OrderedMap K V key} {k k' : K} {v : V} :
    (m.assign k v).get? k' = if key k' = key k then some v else m.get? k' := by
  split_ifs with h
  · have hmem : (m.storedKey k, v) ∈ m.assign k v := mem_assign.mpr (.inr rfl)
    exact get?_eq_some_iff.mpr ⟨m.storedKey k, hmem, (key_storedKey m k).trans h.symm⟩
  · ext w
    simp only [get?_eq_some_iff, mem_assign, Prod.mk.injEq]
    constructor
    · rintro ⟨k'', ⟨hm, -⟩ | ⟨rfl, rfl⟩, hk⟩
      · exact ⟨k'', hm, hk⟩
      · exact absurd (hk.symm.trans (key_storedKey m k)) h
    · rintro ⟨k'', hm, hk⟩
      exact ⟨k'', .inl ⟨hm, hk ▸ h⟩, hk⟩

theorem get?_remove {m : OrderedMap K V key} {k k' : K} :
    (m.remove k).get? k' = if key k' = key k then none else m.get? k' := by
  split_ifs with h
  · exact get?_eq_none_iff.mpr (h ▸ OrderedSet.not_contains_erase m (key k))
  · ext w
    simp only [get?_eq_some_iff, remove, OrderedSet.mem_erase]
    constructor
    · rintro ⟨k'', ⟨hm, -⟩, hk⟩
      exact ⟨k'', hm, hk⟩
    · rintro ⟨k'', hm, hk⟩
      exact ⟨k'', ⟨hm, hk ▸ h⟩, hk⟩

theorem get?_mapValues {f : V → V} {m : OrderedMap K V key} {k : K} :
    (m.mapValues f).get? k = (m.get? k).map f := by
  simp only [get?, OrderedSet.find?, mapValues, List.find?_map, Option.map_map]
  rfl

theorem getOrCreate_of_get? {m : OrderedMap K V key} {k : K} {v w : V} (h : m.get? k = some w) :
    m.getOrCreate k v = (w, m) := by
  simp [getOrCreate, h]

@[simp] theorem getOrCreate_fst (m : OrderedMap K V key) (k : K) (v : V) :
    (m.getOrCreate k v).1 = (m.get? k).getD v := by
  cases h : m.get? k <;> simp [getOrCreate, h]

theorem getOrCreate_assign (m : OrderedMap K V key) (k : K) (v w : V) :
    (m.getOrCreate k v).2.assign k w = m.assign k w := by
  cases h : m.get? k with
  | some u => rw [getOrCreate_of_get? h]
  | none =>
    have hc := get?_eq_none_iff.mp h
    have hm : (k, v) ∈ m.insert (k, v) := OrderedSet.mem_insert.mpr (.inr ⟨rfl, hc⟩)
    have hs : OrderedMap.storedKey (m.insert (k, v)) k = k := storedKey_of_mem hm rfl
    simp only [getOrCreate, h]
    apply OrderedSet.ext_mem
    intro e
    simp only [mem_assign, hs, storedKey_of_not_contains hc, OrderedSet.mem_insert]
    constructor
    · rintro (⟨hm | ⟨rfl, -⟩, hk⟩ | rfl)
      · exact .inl ⟨hm, hk⟩
      · exact absurd rfl hk
      · exact .inr rfl
    · rintro (⟨hm, hk⟩ | rfl)
      · exact .inl ⟨.inl hm, hk⟩
      · exact .inr rfl

end OrderedMap
