/-!
# Finite maps kept in the order of their keys

Two parts of the library keep one value per identifier: the program table, one binding per
elementary PID, and the demultiplexer, one state per announced PID.  In both the order of the
identifiers can be seen from outside --- bindings are listed, and streams are flushed, from the
lowest PID to the highest --- so the map is its list of entries, and the order is part of its type.

## What a reader may use

After this module a map is what `get?` says it is: `get?_insert` tells the content after an
insertion, and `ext_get?` says that two maps with the same content are the same map, which holds
because only one order of the entries is possible.
-/

namespace TransportStream

/-- Keys that are ordered by a number which tells them apart. -/
class Ranked (κ : Type) where
  /-- The number by which a key is ordered. -/
  rank : κ → Nat
  /-- No two keys have the same number. -/
  rank_injective : ∀ {a b : κ}, rank a = rank b → a = b

export Ranked (rank rank_injective)

instance : Ranked Nat where
  rank := id
  rank_injective := id

/-- A finite map from `κ` to `α`, as its entries in strictly ascending order of the keys. -/
structure SortedMap (κ α : Type) [Ranked κ] where
  /-- The entries, lowest key first. -/
  entries : List (κ × α)
  /-- The keys ascend strictly, so no key occurs twice. -/
  sorted : entries.Pairwise fun a b => rank a.1 < rank b.1

namespace SortedMap

variable {κ α β : Type} [Ranked κ]

@[ext] theorem ext_entries {m₁ m₂ : SortedMap κ α} (h : m₁.entries = m₂.entries) : m₁ = m₂ := by
  cases m₁
  cases m₂
  cases h
  rfl

instance [DecidableEq κ] [DecidableEq α] : DecidableEq (SortedMap κ α) := fun m₁ m₂ =>
  if h : m₁.entries = m₂.entries then .isTrue (ext_entries h)
  else .isFalse fun he => h (he ▸ rfl)

/-- The map without entries. -/
def empty : SortedMap κ α :=
  ⟨[], .nil⟩

/-- The value at the first entry with the given key. -/
def lookup (k : κ) : List (κ × α) → Option α
  | [] => none
  | (k', v) :: rest => if rank k' = rank k then some v else lookup k rest

/-- The value at a key, if it has one. -/
def get? (m : SortedMap κ α) (k : κ) : Option α :=
  lookup k m.entries

/-- True of the keys that have a value. -/
def contains (m : SortedMap κ α) (k : κ) : Bool :=
  (m.get? k).isSome

/-- The values, in ascending order of their keys. -/
def values (m : SortedMap κ α) : List α :=
  m.entries.map (·.2)

/-- Puts an entry into an ascending list, in the place of an entry with the same key or else where
the order wants it. -/
def insertEntry (k : κ) (v : α) : List (κ × α) → List (κ × α)
  | [] => [(k, v)]
  | (k', v') :: rest =>
    if rank k < rank k' then (k, v) :: (k', v') :: rest
    else if rank k = rank k' then (k, v) :: rest
    else (k', v') :: insertEntry k v rest

theorem mem_insertEntry {k : κ} {v : α} {e : κ × α} {l : List (κ × α)}
    (h : e ∈ insertEntry k v l) : e = (k, v) ∨ e ∈ l := by
  induction l with
  | nil => simpa [insertEntry] using h
  | cons head rest ih =>
    obtain ⟨k', v'⟩ := head
    unfold insertEntry at h
    split at h
    · simpa using h
    · split at h
      · rcases List.mem_cons.mp h with h | h
        · exact .inl h
        · exact .inr (List.mem_cons_of_mem _ h)
      · rcases List.mem_cons.mp h with h | h
        · exact .inr (h ▸ List.mem_cons_self)
        · exact (ih h).imp_right (List.mem_cons_of_mem _)

/-- Putting an entry into an ascending list keeps it ascending. -/
theorem pairwise_insertEntry (k : κ) (v : α) {l : List (κ × α)}
    (h : l.Pairwise fun a b => rank a.1 < rank b.1) :
    (insertEntry k v l).Pairwise fun a b => rank a.1 < rank b.1 := by
  induction l with
  | nil => simp [insertEntry]
  | cons head rest ih =>
    obtain ⟨k', v'⟩ := head
    obtain ⟨hhead, hrest⟩ := List.pairwise_cons.mp h
    unfold insertEntry
    split
    · next hlt =>
      refine List.pairwise_cons.mpr ⟨fun e he => ?_, h⟩
      rcases List.mem_cons.mp he with rfl | he
      · exact hlt
      · exact Nat.lt_trans hlt (hhead e he)
    · next hge =>
      split
      · next heq =>
        refine List.pairwise_cons.mpr ⟨fun e he => ?_, hrest⟩
        show rank k < rank e.1
        rw [heq]
        exact hhead e he
      · next hne =>
        refine List.pairwise_cons.mpr ⟨fun e he => ?_, ih hrest⟩
        rcases mem_insertEntry he with rfl | he
        · show rank k' < rank k
          omega
        · exact hhead e he

/-- Gives a key a value, in the place of the one it had. -/
def insert (m : SortedMap κ α) (k : κ) (v : α) : SortedMap κ α :=
  ⟨insertEntry k v m.entries, pairwise_insertEntry k v m.sorted⟩

/-- Applies a function to every value. -/
def map (m : SortedMap κ α) (f : α → β) : SortedMap κ β :=
  ⟨m.entries.map fun e => (e.1, f e.2), List.pairwise_map.mpr m.sorted⟩

/-! ## Content -/

@[simp] theorem get?_empty (k : κ) : (empty : SortedMap κ α).get? k = none := rfl

theorem lookup_insertEntry_self (k : κ) (v : α) (l : List (κ × α)) :
    lookup k (insertEntry k v l) = some v := by
  induction l with
  | nil => simp [insertEntry, lookup]
  | cons head rest ih =>
    obtain ⟨q, w⟩ := head
    unfold insertEntry
    split
    · simp [lookup]
    · split
      · simp [lookup]
      · next hne => simpa [lookup, Ne.symm hne] using ih

theorem lookup_insertEntry_of_ne {k k' : κ} (h : rank k ≠ rank k') (v : α) (l : List (κ × α)) :
    lookup k' (insertEntry k v l) = lookup k' l := by
  induction l with
  | nil => simp [insertEntry, lookup, h]
  | cons head rest ih =>
    obtain ⟨q, w⟩ := head
    unfold insertEntry
    split
    · simp [lookup, h]
    · split
      · next heq => simp [lookup, h, ← heq]
      · simp [lookup, ih]

/-- After an insertion the key has its new value. -/
@[simp] theorem get?_insert_self (m : SortedMap κ α) (k : κ) (v : α) :
    (m.insert k v).get? k = some v :=
  lookup_insertEntry_self k v m.entries

/-- An insertion leaves all other keys what they had. -/
theorem get?_insert_of_ne (m : SortedMap κ α) {k k' : κ} (h : k ≠ k') (v : α) :
    (m.insert k v).get? k' = m.get? k' :=
  lookup_insertEntry_of_ne (fun hr => h (rank_injective hr)) v m.entries

theorem get?_insert [DecidableEq κ] (m : SortedMap κ α) (k k' : κ) (v : α) :
    (m.insert k v).get? k' = if k = k' then some v else m.get? k' := by
  split
  · next h => rw [h, get?_insert_self]
  · next h => rw [get?_insert_of_ne m h]

theorem lookup_map (f : α → β) (k : κ) (l : List (κ × α)) :
    lookup k (l.map fun e => (e.1, f e.2)) = (lookup k l).map f := by
  induction l with
  | nil => rfl
  | cons head rest ih =>
    obtain ⟨q, w⟩ := head
    by_cases h : rank q = rank k
    · simp [lookup, h]
    · simpa [lookup, h] using ih

@[simp] theorem get?_map (m : SortedMap κ α) (f : α → β) (k : κ) :
    (m.map f).get? k = (m.get? k).map f :=
  lookup_map f k m.entries

/-! ## Extensionality -/

theorem lookup_eq_none {k : κ} {l : List (κ × α)} (h : ∀ e ∈ l, rank k < rank e.1) :
    lookup k l = none := by
  induction l with
  | nil => rfl
  | cons head rest ih =>
    have hk := h head List.mem_cons_self
    rw [lookup, if_neg (by omega)]
    exact ih fun e he => h e (List.mem_cons_of_mem _ he)

/-- An ascending list of entries is determined by what it gives each key. -/
theorem eq_of_lookup_eq {l₁ l₂ : List (κ × α)}
    (h₁ : l₁.Pairwise fun a b => rank a.1 < rank b.1)
    (h₂ : l₂.Pairwise fun a b => rank a.1 < rank b.1)
    (h : ∀ k, lookup k l₁ = lookup k l₂) : l₁ = l₂ := by
  induction l₁ generalizing l₂ with
  | nil =>
    cases l₂ with
    | nil => rfl
    | cons head rest => simpa [lookup] using h head.1
  | cons a r ih =>
    cases l₂ with
    | nil => simpa [lookup] using h a.1
    | cons b s =>
      obtain ⟨ha, hr⟩ := List.pairwise_cons.mp h₁
      obtain ⟨hb, hs⟩ := List.pairwise_cons.mp h₂
      have hrank : rank a.1 = rank b.1 := by
        have hka := h a.1
        have hkb := h b.1
        simp only [lookup, if_true] at hka hkb
        rcases Nat.lt_trichotomy (rank a.1) (rank b.1) with hlt | heq | hlt
        · rw [if_neg (by omega), lookup_eq_none fun e he => Nat.lt_trans hlt (hb e he)] at hka
          simp at hka
        · exact heq
        · rw [if_neg (by omega), lookup_eq_none fun e he => Nat.lt_trans hlt (ha e he)] at hkb
          simp at hkb
      have hkey : a.1 = b.1 := rank_injective hrank
      have hval : a.2 = b.2 := by simpa [lookup, hkey] using h a.1
      have htail : r = s := by
        refine ih hr hs fun k => ?_
        by_cases hk : rank a.1 = rank k
        · rw [lookup_eq_none fun e he => hk ▸ ha e he,
            lookup_eq_none fun e he => hk ▸ hrank ▸ hb e he]
        · have hkk := h k
          rwa [lookup, lookup, if_neg hk, if_neg (hrank ▸ hk)] at hkk
      rw [Prod.ext hkey hval, htail]

/-- Two maps with the same content are the same map. -/
theorem ext_get? {m₁ m₂ : SortedMap κ α} (h : ∀ k, m₁.get? k = m₂.get? k) : m₁ = m₂ :=
  ext_entries (eq_of_lookup_eq m₁.sorted m₂.sorted h)

/-! ## What comes from the values -/

/-- Of what all values of an ascending list give, the part that names a key comes from the value at
that key. -/
theorem filter_flatMap_lookup [DecidableEq κ] {γ : Type} (f : α → List γ) (key : γ → κ)
    {l : List (κ × α)} (hl : l.Pairwise fun a b => rank a.1 < rank b.1)
    (h : ∀ e ∈ l, ∀ c ∈ f e.2, key c = e.1) (k : κ) :
    ((l.map (·.2)).flatMap f).filter (fun c => key c = k) = ((lookup k l).map f).getD [] := by
  induction l with
  | nil => rfl
  | cons head rest ih =>
    obtain ⟨hhead, hrest⟩ := List.pairwise_cons.mp hl
    obtain ⟨hkey, hkeys⟩ := List.forall_mem_cons.mp h
    rw [List.map_cons, List.flatMap_cons, List.filter_append, ih hrest hkeys, lookup]
    by_cases hk : rank head.1 = rank k
    · have hall : (f head.2).filter (fun c => key c = k) = f head.2 :=
        List.filter_eq_self.mpr fun c hc => decide_eq_true (hkey c hc ▸ rank_injective hk)
      rw [if_pos hk, lookup_eq_none fun e he => hk ▸ hhead e he, hall]
      exact List.append_nil _
    · have hno : (f head.2).filter (fun c => key c = k) = [] := by
        refine List.filter_eq_nil_iff.mpr fun c hc heq => hk ?_
        rw [← hkey c hc, of_decide_eq_true heq]
      rw [if_neg hk, hno, List.nil_append]

theorem lookup_of_mem {k : κ} {v : α} {l : List (κ × α)}
    (hl : l.Pairwise fun a b => rank a.1 < rank b.1) (h : (k, v) ∈ l) : lookup k l = some v := by
  induction l with
  | nil => cases h
  | cons head rest ih =>
    obtain ⟨hhead, hrest⟩ := List.pairwise_cons.mp hl
    rcases List.mem_cons.mp h with rfl | h
    · rw [lookup, if_pos rfl]
    · have hlt : rank head.1 < rank k := hhead _ h
      rw [lookup, if_neg (by omega), ih hrest h]

/-- Every value is there for some key. -/
theorem exists_get?_of_mem_values {m : SortedMap κ α} {v : α} (h : v ∈ m.values) :
    ∃ k, m.get? k = some v := by
  obtain ⟨e, he, rfl⟩ := List.mem_map.mp h
  exact ⟨e.1, lookup_of_mem m.sorted he⟩

theorem exists_mem_of_lookup {k : κ} {v : α} {l : List (κ × α)} (h : lookup k l = some v) :
    ∃ k', (k', v) ∈ l := by
  induction l with
  | nil => cases h
  | cons head rest ih =>
    rw [lookup] at h
    split at h
    · obtain rfl := Option.some.inj h
      exact ⟨head.1, List.mem_cons_self⟩
    · obtain ⟨k', hk'⟩ := ih h
      exact ⟨k', List.mem_cons_of_mem _ hk'⟩

/-- What is there for a key is among the values. -/
theorem mem_values_of_get? {m : SortedMap κ α} {k : κ} {v : α} (h : m.get? k = some v) :
    v ∈ m.values := by
  obtain ⟨k', hk'⟩ := exists_mem_of_lookup h
  exact List.mem_map.mpr ⟨(k', v), hk', rfl⟩

/-- Of what all values of a map give, the part that names a key comes from the value at that key. -/
theorem filter_flatMap_values [DecidableEq κ] {γ : Type} (m : SortedMap κ α) (f : α → List γ)
    (key : γ → κ) (h : ∀ k v, m.get? k = some v → ∀ c ∈ f v, key c = k) (k : κ) :
    (m.values.flatMap f).filter (fun c => key c = k) = ((m.get? k).map f).getD [] :=
  filter_flatMap_lookup f key m.sorted (fun e he => h e.1 e.2 (lookup_of_mem m.sorted he)) k

/-- If each value gives at most one thing, which names its key, then these things are in strictly
ascending order of the keys. -/
theorem pairwise_flatMap_values {γ : Type} (m : SortedMap κ α) (f : α → Option γ) (key : γ → κ)
    (h : ∀ k v, m.get? k = some v → ∀ c, f v = some c → key c = k) :
    (m.values.flatMap fun v => (f v).toList).Pairwise fun c c' => rank (key c) < rank (key c') := by
  rw [List.pairwise_flatMap]
  constructor
  · intro v hv
    cases f v with
    | none => exact .nil
    | some c => exact List.pairwise_singleton _ c
  · rw [values, List.pairwise_map]
    refine m.sorted.imp_of_mem fun {e e'} he he' hlt c hc c' hc' => ?_
    rw [h e.1 e.2 (lookup_of_mem m.sorted he) c (Option.mem_toList.mp hc),
      h e'.1 e'.2 (lookup_of_mem m.sorted he') c' (Option.mem_toList.mp hc')]
    exact hlt

end SortedMap

end TransportStream
