/-!
# Entries with distinct names

In a list that has no name twice, looking a name up finds its entry wherever that stands
(`lookup_eq_some_iff_mem`). So lists of the same names differ for a reader only if their values do
(`bind_lookup_congr`).
-/

namespace Formula

variable {α : Type} {entries others : List (String × α)} {name : String} {value : α}

theorem forall_bne_iff_not_mem :
    (∀ entry ∈ entries, (name != entry.1) = true) ↔ name ∉ entries.map Prod.fst := by
  constructor
  · intro different listed
    obtain ⟨entry, member, rfl⟩ := List.mem_map.mp listed
    exact bne_iff_ne.mp (different entry member) rfl
  · intro unlisted entry member
    refine bne_iff_ne.mpr fun same => unlisted ?_
    exact same ▸ List.mem_map_of_mem member

theorem lookup_eq_some_iff_mem (distinct : (entries.map Prod.fst).Nodup) :
    entries.lookup name = some value ↔ (name, value) ∈ entries := by
  induction entries with
  | nil => simp
  | cons entry rest ih =>
    obtain ⟨other, held⟩ := entry
    rw [List.map_cons, List.nodup_cons] at distinct
    by_cases same : name = other
    · subst same
      have fresh : (name, value) ∉ rest := by
        intro member
        exact distinct.1 (List.mem_map.mpr ⟨_, member, rfl⟩)
      simp [fresh, eq_comm]
    · have different : (name == other) = false := by simpa using same
      simp [List.lookup_cons, different, same, ih distinct.2]

/-- Of entries of one name only what `read` takes from them matters. -/
theorem bind_lookup_congr {β : Type} {read : α → Option β}
    (distinct : (entries.map Prod.fst).Nodup) (distinctToo : (others.map Prod.fst).Nodup)
    (names : (entries.map Prod.fst).Perm (others.map Prod.fst))
    (same : ∀ value other, (name, value) ∈ entries → (name, other) ∈ others → read value = read other) :
    (entries.lookup name).bind read = (others.lookup name).bind read := by
  cases found : entries.lookup name with
  | some value =>
    have member := (lookup_eq_some_iff_mem distinct).mp found
    obtain ⟨⟨_, other⟩, memberToo, rfl⟩ := List.mem_map.mp (names.subset (List.mem_map_of_mem member))
    rw [(lookup_eq_some_iff_mem distinctToo).mpr memberToo]
    exact same value other member memberToo
  | none =>
    cases foundToo : others.lookup name with
    | none => rfl
    | some other =>
      have memberToo := (lookup_eq_some_iff_mem distinctToo).mp foundToo
      obtain ⟨⟨_, value⟩, member, rfl⟩ := List.mem_map.mp (names.symm.subset (List.mem_map_of_mem memberToo))
      rw [(lookup_eq_some_iff_mem distinct).mpr member] at found
      cases found

end Formula
