import Mathlib.Data.List.Perm.Basic
import Mathlib.Data.Prod.Basic
import Mathlib.Logic.Equiv.Basic
import BatchedCommit.Proofs.Current
import BatchedCommit.Proofs.Routing

/-!
# BatchedCommit.Proofs.Reordering

The same registry with its tables enumerated in another order (`Registry.Reordered`), and with its
groups at other places (`Registry.Alike`). A sweep works on the groups in the order of their index,
and the groups that it makes stand in that order; so two registries that differ in nothing else are
alike after it, up to the places of the groups that were made.

What a table says does not depend on its order (`Table.perm_map_iff`), so everything that is known
about a registry is known about the same one in another order.
-/

namespace BatchedCommit

variable {ν : Type}

/-- Things that are numbered in another order have the same numbers, up to a permutation of the
numbers that are in use. -/
theorem exists_place {α : Type} {one two : List α} (h : one.Perm two) (first : Nat) :
    ∃ place : Nat ≃ Nat, (∀ id < first, place id = id) ∧
      (two.zipIdx first).Perm ((one.zipIdx first).map (Prod.map id place)) := by
  induction h generalizing first with
  | nil => exact ⟨.refl Nat, fun _ _ => rfl, .nil⟩
  | cons x _ ih =>
    obtain ⟨place, hbelow, hperm⟩ := ih (first + 1)
    refine ⟨place, fun id hid => hbelow id (by omega), ?_⟩
    rw [List.zipIdx_cons, List.zipIdx_cons, List.map_cons, Prod.map_apply,
      hbelow first (Nat.lt_succ_self first)]
    exact hperm.cons _
  | swap x y rest =>
    refine ⟨.swap first (first + 1), fun id hid => ?_, ?_⟩
    · exact Equiv.swap_apply_of_ne_of_ne (by omega) (by omega)
    · have hrest : (rest.zipIdx (first + 1 + 1)).map (Prod.map id (Equiv.swap first (first + 1))) =
          rest.zipIdx (first + 1 + 1) := by
        refine (List.map_congr_left fun entry hentry => ?_).trans (List.map_id _)
        have hle := (List.mem_zipIdx_iff_le_and_getElem?_sub.mp hentry).1
        rw [Prod.map, Equiv.swap_apply_of_ne_of_ne (by omega) (by omega)]
        rfl
      simp only [List.zipIdx_cons, List.map_cons, Prod.map_apply, hrest, Equiv.swap_apply_left,
        Equiv.swap_apply_right, id_eq]
      exact .swap _ _ _
  | trans _ _ ih ih' =>
    obtain ⟨place, hbelow, hperm⟩ := ih first
    obtain ⟨place', hbelow', hperm'⟩ := ih' first
    refine ⟨place.trans place', fun id hid => ?_, ?_⟩
    · rw [Equiv.trans_apply, hbelow id hid, hbelow' id hid]
    · refine hperm'.trans ((hperm.map _).trans (.of_eq ?_))
      rw [List.map_map]
      rfl

/-- What has a number in the one order has the renamed number in the other one. -/
theorem getElem?_place {α : Type} {one two : List α} {first : Nat} {place : Nat ≃ Nat}
    (hbelow : ∀ id < first, place id = id)
    (h : (two.zipIdx first).Perm ((one.zipIdx first).map (Prod.map id place))) {id : Nat}
    (hid : first ≤ id) :
    first ≤ place id ∧ two[place id - first]? = one[id - first]? := by
  have habove : first ≤ place id := by
    by_contra hlt
    have hfixed := place.injective (hbelow (place id) (by omega))
    omega
  refine ⟨habove, ?_⟩
  ext entry
  have hmem := h.mem_iff (a := (entry, place id))
  simpa only [List.mem_map, Prod.exists, Prod.map_apply, id_eq, Prod.mk.injEq,
    EmbeddingLike.apply_eq_iff_eq, exists_eq_right_right, exists_eq_right,
    List.mem_zipIdx_iff_le_and_getElem?_sub, hid, habove, true_and] using hmem

/-! ## Tables -/

namespace Table

variable {α : Type}

/-- A table is the same as another one with its entries renamed exactly if look-ups find the same
in both, with its name. -/
theorem perm_map_iff {one two : Table α} {rename : α → α} (hrename : rename.Injective) :
    two.entries.Perm (one.entries.map (Prod.map id rename)) ↔
      ∀ key, two.find? key = (one.find? key).map rename := by
  have hone : (one.entries.map (Prod.map id rename)).Nodup :=
    one.nodup.of_map.map (Function.injective_id.prodMap hrename)
  rw [List.perm_ext_iff_of_nodup two.nodup.of_map hone]
  constructor
  · intro h key
    ext entry
    rw [find?_eq_some_iff, h, Option.map_eq_some_iff]
    simp only [List.mem_map, Prod.exists, Prod.map_apply, id_eq, Prod.mk.injEq, find?_eq_some_iff]
    grind
  · rintro h ⟨key, entry⟩
    rw [← find?_eq_some_iff, h key, Option.map_eq_some_iff]
    simp only [List.mem_map, Prod.exists, Prod.map_apply, id_eq, Prod.mk.injEq, find?_eq_some_iff]
    grind

/-- Look-ups find the same, in whatever order the entries are enumerated. -/
theorem perm_iff {one two : Table α} :
    two.entries.Perm one.entries ↔ ∀ key, two.find? key = one.find? key := by
  have h : two.entries.Perm (one.entries.map (Prod.map id id)) ↔ _ :=
    perm_map_iff Function.injective_id
  simpa using h

end Table

namespace Registry

variable {one two three registry later : Registry ν} {place : Nat ≃ Nat}

/-! ## Registries that are alike -/

/-- Two registries are the same, but for the order in which their tables are enumerated and for the
places of their groups: the group at `id` in the one is at `place id` in the other. -/
structure Alike (place : Nat ≃ Nat) (one two : Registry ν) : Prop where
  settings : two.settings = one.settings
  scheme : two.scheme = one.scheme
  issued : two.issued = one.issued
  closed : two.closed = one.closed
  counters : two.counters = one.counters
  groups : ∀ id, two.groups[place id]? = one.groups[id]?
  current : two.current = one.current.map place
  normal : two.normal.entries.Perm (one.normal.entries.map (Prod.map id place))
  delayed : two.delayed.entries.Perm (one.delayed.entries.map (Prod.map id place))
  tombstones : two.tombstones.entries.Perm one.tombstones.entries

/-- The same registry, with its tables enumerated in another order. -/
abbrev Reordered (one two : Registry ν) : Prop := Alike (Equiv.refl Nat) one two

namespace Alike

theorem refl (registry : Registry ν) : registry.Reordered registry where
  settings := rfl
  scheme := rfl
  issued := rfl
  closed := rfl
  counters := rfl
  groups := fun _ => rfl
  current := by simp
  normal := by simp
  delayed := by simp
  tombstones := .refl _

/-- Look-ups in both indexes find the same groups, at their places. -/
theorem find? (h : Alike place one two) (kind : GroupKind) (key : String) :
    (two.index kind).find? key = ((one.index kind).find? key).map place := by
  cases kind with
  | normal => exact (Table.perm_map_iff place.injective).mp h.normal key
  | delayed => exact (Table.perm_map_iff place.injective).mp h.delayed key

/-- Registries are alike if look-ups find the same. -/
theorem of_find? (hsettings : two.settings = one.settings) (hscheme : two.scheme = one.scheme)
    (hissued : two.issued = one.issued) (hclosed : two.closed = one.closed)
    (hcounters : two.counters = one.counters)
    (hgroups : ∀ id, two.groups[place id]? = one.groups[id]?)
    (hcurrent : two.current = one.current.map place)
    (hindex : ∀ kind key, (two.index kind).find? key = ((one.index kind).find? key).map place)
    (htombstones : ∀ key, two.tombstones.find? key = one.tombstones.find? key) :
    Alike place one two where
  settings := hsettings
  scheme := hscheme
  issued := hissued
  closed := hclosed
  counters := hcounters
  groups := hgroups
  current := hcurrent
  normal := (Table.perm_map_iff place.injective).mpr (hindex .normal)
  delayed := (Table.perm_map_iff place.injective).mpr (hindex .delayed)
  tombstones := Table.perm_iff.mpr htombstones

theorem tombstone (h : Alike place one two) (key : String) :
    two.tombstones.find? key = one.tombstones.find? key := Table.perm_iff.mp h.tombstones key

theorem symm (h : Alike place one two) : Alike place.symm two one := by
  refine .of_find? h.settings.symm h.scheme.symm h.issued.symm h.closed.symm h.counters.symm
    (fun id => ?_) ?_ (fun kind key => ?_) fun key => (h.tombstone key).symm
  · rw [← h.groups, Equiv.apply_symm_apply]
  · rw [h.current, Option.map_map, Equiv.symm_comp_self, Option.map_id_fun, id_eq]
  · rw [h.find?, Option.map_map, Equiv.symm_comp_self, Option.map_id_fun, id_eq]

theorem trans {place' : Nat ≃ Nat} (h : Alike place one two) (h' : Alike place' two three) :
    Alike (place.trans place') one three := by
  refine .of_find? (h'.settings.trans h.settings) (h'.scheme.trans h.scheme)
    (h'.issued.trans h.issued) (h'.closed.trans h.closed) (h'.counters.trans h.counters)
    (fun id => ?_) ?_ (fun kind key => ?_) fun key => (h'.tombstone key).trans (h.tombstone key)
  · rw [Equiv.trans_apply, h'.groups, h.groups]
  · rw [h'.current, h.current, Option.map_map, Equiv.coe_trans]
  · rw [h'.find?, h.find?, Option.map_map, Equiv.coe_trans]

/-- A group of the one is a group of the other. -/
theorem group (h : Alike place one two) {id : Nat} {group : Group ν}
    (hgroup : one.groups[id]? = some group) : two.groups[place id]? = some group := by
  rw [h.groups, hgroup]

theorem registered (h : Alike place one two) {id : Nat} (hid : one.Registered id) :
    two.Registered (place id) := by
  obtain ⟨kind, key, hfind⟩ := registered_iff.mp hid
  exact registered_iff.mpr ⟨kind, key, by rw [h.find?, hfind, Option.map_some]⟩

/-! ## What carries over -/

theorem lives (h : Alike place one two) {kind : GroupKind} {key : String} {id : Nat}
    (hlives : one.Lives kind key id) : two.Lives kind key (place id) := by
  obtain ⟨group, hgroup, hrest⟩ := hlives
  exact ⟨group, h.group hgroup, hrest⟩

theorem indexed (h : Alike place one two) (hindexed : one.Indexed) : two.Indexed := by
  have hentries : ∀ kind, ∀ entry ∈ (two.index kind).entries,
      two.Lives kind entry.1 entry.2 := by
    rintro kind ⟨key, id⟩ hentry
    have hfind := (Table.find?_eq_some_iff _ key id).mpr hentry
    rw [h.find?, Option.map_eq_some_iff] at hfind
    obtain ⟨own, hown, rfl⟩ := hfind
    exact h.lives (hindexed.lives kind hown)
  exact ⟨hentries .normal, hentries .delayed⟩

theorem steered (h : Alike place one two) (hsteered : one.Steered) : two.Steered where
  listed := fun id hid => by
    rw [h.current, Option.map_eq_some_iff] at hid
    obtain ⟨own, hown, rfl⟩ := hid
    obtain ⟨group, hgroup, hopen, hfind⟩ := hsteered.listed own hown
    refine ⟨group, h.group hgroup, hopen, ?_⟩
    exact (h.find? .normal group.key).trans (congrArg _ hfind)
  single := fun key id group hfind hgroup hopen => by
    have hfind' := (h.find? .normal key).symm.trans hfind
    obtain ⟨own, hown, rfl⟩ := Option.map_eq_some_iff.mp hfind'
    rw [h.groups] at hgroup
    rw [h.current, hsteered.single key own group hown hgroup hopen, Option.map_some]

end Alike

namespace Reordered

theorem groups_eq (h : one.Reordered two) : two.groups = one.groups :=
  Array.ext_getElem? h.groups

theorem current_eq (h : one.Reordered two) : two.current = one.current := by
  rw [h.current]
  exact Option.map_id_apply

theorem find?_eq (h : one.Reordered two) (kind : GroupKind) (key : String) :
    (two.index kind).find? key = (one.index kind).find? key :=
  (h.find? kind key).trans Option.map_id_apply

theorem index_perm (h : one.Reordered two) (kind : GroupKind) :
    (two.index kind).entries.Perm (one.index kind).entries := Table.perm_iff.mpr (h.find?_eq kind)

theorem registered_iff (h : one.Reordered two) {id : Nat} :
    two.Registered id ↔ one.Registered id :=
  ⟨fun hid => h.symm.registered hid, fun hid => h.registered hid⟩

theorem isDue_eq (h : one.Reordered two) (now : Instant) (id : Nat) :
    two.isDue now id = one.isDue now id :=
  isDue_congr (h.groups id) h.settings

/-- Keys lead to the groups that they belong to, in whatever order tables are enumerated. -/
theorem routed (h : one.Reordered two) (hrouted : one.Routed) : two.Routed where
  indexed := h.indexed hrouted.indexed
  distinct := hrouted.distinct.shrunk (Steady.same h.groups_eq h.issued h.scheme).shrunk
  separator := by rw [h.scheme, hrouted.separator]
  marked := fun key since hfind => by
    rw [h.tombstone] at hfind
    rw [AbortedUnder, h.groups_eq]
    exact hrouted.marked key since hfind

end Reordered

end Registry

end BatchedCommit
