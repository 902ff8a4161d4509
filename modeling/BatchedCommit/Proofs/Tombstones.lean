import BatchedCommit.Proofs.Origins
import BatchedCommit.Proofs.Routing

/-!
# BatchedCommit.Proofs.Tombstones

What calls are told about the slots of a group that a sweep has aborted
(`Committer.aborted_until_forgotten`). The sweep leaves a tombstone for the key of the group, and
until a later sweep forgets it, values and removals for these slots are refused as aborted; then
they are refused as unknown.

Nothing re-registers the key in between, and nothing replaces its tombstone
(`Committer.tombstone_run`). The slot of a delayed group is looked up under its own key first and
under the key of its origin last; the origin was aborted by the same sweep, or its emission was
claimed before (`Committer.origin_of_aborted`).
-/

namespace BatchedCommit

variable {ν ε : Type}

namespace Group

variable {scheme : KeyScheme} {group changed : Group ν}

/-- A value for a slot that a group does not have is refused. -/
theorem put_of_notMem {fullKey : String} (h : ∀ slot ∈ group.slots, slot.fullKey ≠ fullKey)
    (hstage : group.stage ≠ .aborted) (value : ν) :
    group.put fullKey value = .error (.unknownKey fullKey) := by
  have hnone : ∀ {slots : List (Slot ν)}, (∀ slot ∈ slots, slot.fullKey ≠ fullKey) →
      putIn fullKey value slots = .error (.unknownKey fullKey) := by
    intro slots hslots
    induction slots with
    | nil => rfl
    | cons first rest ih =>
      rw [List.forall_mem_cons] at hslots
      rw [putIn, if_neg hslots.1, ih hslots.2]
      rfl
  rw [put]
  split
  · contradiction
  · rfl
  all_goals
    rw [hnone h]
    rfl

end Group

namespace Registry

variable {registry : Registry ν}

/-! ## Calls on keys that lead nowhere -/

theorem store_of_find {fullKey : String} {failure : Failure} (hopen : registry.closed = false)
    (h : registry.find fullKey = .error failure) (value : ν) :
    registry.store fullKey value = { answer := .error failure, registry } := by
  rw [store, if_neg (by simp [hopen]), lookup, h]

theorem remove_of_find {fullKey : String} {failure : Failure} (hopen : registry.closed = false)
    (h : registry.find fullKey = .error failure) :
    registry.remove fullKey = { answer := .error failure, registry } := by
  rw [remove, if_neg (by simp [hopen]), lookup, h]

/-- The group that the slot of a full key was reserved in is registered and ready. -/
def ParentReady (registry : Registry ν) (fullKey : String) (parent : Group ν) : Prop :=
  ∃ key place, registry.scheme.parentOf? fullKey = some key ∧
    registry.normal.find? key = some place ∧ registry.groups[place]? = some parent ∧
      parent.stage = .ready

/-- The slot of a full key was reserved in a normal group that was aborted, and has a given
tombstone or none; or else the emission of that group was claimed. -/
def OriginEnded (registry : Registry ν) (fullKey : String) (tombstone : Option Instant) : Prop :=
  ∃ (place : Nat) (origin : Group ν) (child : String), registry.groups[place]? = some origin ∧
    origin.kind = .normal ∧ fullKey = registry.scheme.fullKey origin.key child ∧
      (origin.stage = .aborted ∧ registry.tombstones.find? origin.key = tombstone ∨
        origin.IsEmitting)

namespace Routed

variable {id : Nat} {group : Group ν} {slot : Slot ν}

/-- No two groups bear the same key. -/
theorem id_of_key (h : registry.Routed) {i j : Nat} {one two : Group ν}
    (hone : registry.groups[i]? = some one) (htwo : registry.groups[j]? = some two)
    (hkey : one.key = two.key) : i = j := by
  -- a full key is not a parent key
  have hmixed : ∀ {i j : Nat} {one two : Group ν}, registry.groups[i]? = some one →
      registry.groups[j]? = some two → one.kind = .normal → two.kind = .delayed →
      one.key ≠ two.key := by
    intro i j one two hone htwo hnormal hdelayed heq
    obtain ⟨place, origin, child, -, -, -, hname⟩ := h.distinct.source j two htwo hdelayed
    rw [hname] at heq
    exact KeyScheme.fullKey_ne_parent h.separator (h.distinct.isParent_key hone hnormal) heq.symm
  cases hkind : one.kind with
  | normal =>
    cases hkind' : two.kind with
    | normal => exact h.distinct.id_of_key hone htwo (hkind.trans hkind'.symm) hkey
    | delayed => exact absurd hkey (hmixed hone htwo hkind hkind')
  | delayed =>
    cases hkind' : two.kind with
    | normal => exact absurd hkey.symm (hmixed htwo hone hkind' hkind)
    | delayed => exact h.distinct.id_of_key hone htwo (hkind.trans hkind'.symm) hkey

/-- Nothing is registered under the key of an aborted group. -/
theorem find?_of_aborted (h : registry.Routed) (hgroup : registry.groups[id]? = some group)
    (haborted : group.stage = .aborted) (kind : GroupKind) :
    (registry.index kind).find? group.key = none := by
  cases hfind : (registry.index kind).find? group.key with
  | none => rfl
  | some place =>
    obtain ⟨other, hother, -, hkey, -, hstage⟩ := h.indexed.lives kind hfind
    obtain rfl := h.id_of_key hother hgroup hkey
    rw [Option.some.inj (hother.symm.trans hgroup)] at hstage
    contradiction

/-- There is no tombstone for the key of a group that was not aborted. -/
theorem tombstone_of_live (h : registry.Routed) (hgroup : registry.groups[id]? = some group)
    (hlive : group.stage ≠ .aborted) : registry.tombstones.find? group.key = none := by
  cases hfind : registry.tombstones.find? group.key with
  | none => rfl
  | some since =>
    obtain ⟨place, other, hother, hkey, hstage⟩ := h.marked _ since hfind
    obtain rfl := h.id_of_key hother hgroup hkey
    rw [Option.some.inj (hother.symm.trans hgroup)] at hstage
    contradiction

/-- The full key of a slot that was reserved in a normal group leads to the key of this group. -/
theorem parentOf?_fullKey (h : registry.Routed) (hgroup : registry.groups[id]? = some group)
    (hkind : group.kind = .normal) (child : String) :
    registry.scheme.parentOf? (registry.scheme.fullKey group.key child) = some group.key := by
  obtain ⟨index, -, hparent⟩ := h.distinct.parent id group hgroup hkind
  rw [KeyScheme.parentOf?, KeyScheme.split?_fullKey h.separator
    (h.distinct.isParent_key hgroup hkind)]
  · rfl
  · rw [hparent]
    exact KeyScheme.parentKey_ne_empty _ index

/-- A look-up for a slot of an aborted group comes to the tombstone of the group. -/
theorem find_of_tombstone (h : registry.Routed) (hgroup : registry.groups[id]? = some group)
    (haborted : group.stage = .aborted) (hslot : slot ∈ group.slots) {since : Instant}
    (hfind : registry.tombstones.find? group.key = some since) :
    registry.find slot.fullKey = .error (.aborted group.key) := by
  cases hkind : group.kind with
  | delayed =>
    have hkey : slot.fullKey = group.key :=
      (h.distinct.named id group hgroup).own hkind _ (List.mem_map_of_mem hslot)
    have hdelayed : registry.delayed.find? group.key = none :=
      h.find?_of_aborted hgroup haborted .delayed
    simp [find, hkey, hdelayed, Table.contains, hfind]
  | normal =>
    have hdelayed := h.delayed_find?_slot hgroup hkind hslot
    have hparent : registry.scheme.parentOf? slot.fullKey = some group.key := by
      rw [KeyScheme.parentOf?, h.split?_slot hgroup hkind hslot]
      rfl
    have hnormal : registry.normal.find? group.key = none :=
      h.find?_of_aborted hgroup haborted .normal
    simp [find, hdelayed, Table.contains, h.tombstone_slot hgroup hkind hslot, hparent, hnormal,
      hfind]

/-- Once the tombstone is forgotten, the slot of a normal group is an unknown one. -/
theorem find_of_forgotten (h : registry.Routed) (hgroup : registry.groups[id]? = some group)
    (haborted : group.stage = .aborted) (hkind : group.kind = .normal) (hslot : slot ∈ group.slots)
    (hnone : registry.tombstones.find? group.key = none) :
    registry.find slot.fullKey = .error (.unknownKey slot.fullKey) := by
  have hdelayed := h.delayed_find?_slot hgroup hkind hslot
  have hparent : registry.scheme.parentOf? slot.fullKey = some group.key := by
    rw [KeyScheme.parentOf?, h.split?_slot hgroup hkind hslot]
    rfl
  have hnormal : registry.normal.find? group.key = none :=
    h.find?_of_aborted hgroup haborted .normal
  simp [find, hdelayed, Table.contains, h.tombstone_slot hgroup hkind hslot, hparent, hnormal,
    hnone]

/-- Once the tombstones of a delayed group and of its origin are forgotten, the slot leads to the
origin, or is an unknown one if that is not registered. -/
theorem find_of_forgotten_origin (h : registry.Routed)
    (hgroup : registry.groups[id]? = some group) (haborted : group.stage = .aborted)
    {place : Nat} {origin : Group ν} {child : String}
    (horigin : registry.groups[place]? = some origin) (hkind : origin.kind = .normal)
    (hkey : group.key = registry.scheme.fullKey origin.key child)
    (hnone : registry.tombstones.find? group.key = none)
    (hnone' : registry.tombstones.find? origin.key = none) :
    registry.find group.key = match registry.normal.find? origin.key with
      | some place => .ok place
      | none => .error (.unknownKey group.key) := by
  have hdelayed : registry.delayed.find? group.key = none :=
    h.find?_of_aborted hgroup haborted .delayed
  have hparent : registry.scheme.parentOf? group.key = some origin.key := by
    rw [hkey]
    exact h.parentOf?_fullKey horigin hkind child
  cases hnormal : registry.normal.find? origin.key <;>
    simp [find, hdelayed, Table.contains, hnone, hparent, hnone', hnormal]

end Routed

end Registry

namespace Committer

variable {label : String} {settings : Settings} {scheme : KeyScheme}
  {slotBytes : Nat} {unstartable : Option (Sweeper × String)} {start : Committer ν ε}

/-! ## What stays in a run -/

/-- A committer stays open until it is closed. -/
theorem open_of_append (hstart : (launch label settings scheme slotBytes unstartable).1 = .ok start)
    (actions more : List (Action ν ε)) (hmore : ∀ action ∈ more, action ≠ .close)
    (hopen : (start.run actions).registry.closed = false) :
    (start.run (actions ++ more)).registry.closed = false := by
  induction more using List.reverseRecOn with
  | nil => rwa [List.append_nil]
  | append_singleton more action ih =>
    have hs : Staffed (start.run (actions ++ more)) := (Staffed.launch hstart).run _
    have hbefore := ih fun other hother => hmore other (List.mem_append_left _ hother)
    rw [← List.append_assoc, run_append]
    change ((start.run (actions ++ more)).step action).registry.closed = false
    obtain ⟨-, hsame⟩ | ⟨now, -, heq⟩ | ⟨_, rfl, -⟩ := (hs.deed action).calm
    · rw [hsame, hbefore]
    · rw [heq, (Registry.expired_abortOld (indexed_of_launch hstart _) now).closed, hbefore]
    · exact absurd rfl (hmore .close (by simp))

/-- Only sweeps that abort groups touch the tombstones of a committer that is not closed. -/
theorem tombstones_step {committer : Committer ν ε} (hs : Staffed committer)
    {action : Action ν ε} (hclose : action ≠ .close) (hsweep : ∀ now, action ≠ .sweep .abort now) :
    (committer.step action).registry.tombstones = committer.registry.tombstones := by
  obtain ⟨hsame, -⟩ | ⟨now, rfl, -⟩ | ⟨_, rfl, -⟩ := (hs.deed action).calm
  · exact hsame
  · exact absurd rfl (hsweep now)
  · exact absurd rfl hclose

/-- A sweep keeps the tombstone of a group that was aborted earlier, or drops it, as its age
says. -/
theorem tombstone_abortOld {committer : Committer ν ε} (hrouted : committer.registry.Routed)
    {id : Nat} {group : Group ν} (hgroup : committer.registry.groups[id]? = some group)
    (haborted : group.stage = .aborted) (now : Instant) :
    (committer.step (.sweep .abort now)).registry.tombstones.find? group.key =
      (committer.registry.tombstones.find? group.key).filter fun since =>
        decide (elapsed now since ≤ committer.registry.settings.abortWindow) := by
  refine (Registry.expired_abortOld hrouted.indexed now).unmarked group.key
    fun kind place hplace => ?_
  rw [hrouted.find?_of_aborted hgroup haborted kind] at hplace
  contradiction

/-- The tombstone of an aborted group stays as it is until a sweep finds that it has outlived the
window, and then never comes back. -/
theorem tombstone_run (hstart : (launch label settings scheme slotBytes unstartable).1 = .ok start)
    (hseparator : scheme.separator.isDigit = false) (actions more : List (Action ν ε))
    (hissued : (start.run (actions ++ more)).registry.issued ≤ scheme.cycle)
    (hmore : ∀ action ∈ more, action ≠ .close) {id : Nat} {group : Group ν} {since : Instant}
    (hgroup : (start.run actions).registry.groups[id]? = some group)
    (haborted : group.stage = .aborted)
    (hfind : (start.run actions).registry.tombstones.find? group.key = some since) :
    ((∀ now, .sweep .abort now ∈ more → elapsed now since ≤ settings.abortWindow) →
      (start.run (actions ++ more)).registry.tombstones.find? group.key = some since) ∧
    ((∃ now, .sweep .abort now ∈ more ∧ settings.abortWindow < elapsed now since) →
      (start.run (actions ++ more)).registry.tombstones.find? group.key = none) := by
  induction more using List.reverseRecOn with
  | nil => exact ⟨fun _ => by rwa [List.append_nil], fun ⟨_, hmem, _⟩ => by contradiction⟩
  | append_singleton more action ih =>
    have hs : Staffed (start.run (actions ++ more)) := (Staffed.launch hstart).run _
    have hbefore : (start.run (actions ++ more)).registry.issued ≤ scheme.cycle := by
      refine Nat.le_trans (issued_le_of_append hstart hseparator _ [action]) ?_
      rwa [List.append_assoc]
    obtain ⟨hkept, hgone⟩ :=
      ih hbefore fun other hother => hmore other (List.mem_append_left _ hother)
    have hrouted := routed_run hstart hseparator _ hbefore
    have hstill : (start.run (actions ++ more)).registry.groups[id]? = some group := by
      rw [run_append]
      exact ended_stays ((Staffed.launch hstart).run actions) more hgroup (by rw [haborted]; rfl)
    rw [← List.append_assoc, run_append]
    change (_ → ((start.run (actions ++ more)).step action).registry.tombstones.find? _ = _) ∧
      (_ → ((start.run (actions ++ more)).step action).registry.tombstones.find? _ = _)
    by_cases hsweep : ∃ now, action = .sweep .abort now
    · obtain ⟨now, rfl⟩ := hsweep
      rw [tombstone_abortOld hrouted hstill haborted now, (run_constant hstart _).1]
      constructor
      · intro hall
        rw [hkept fun other hother => hall other (List.mem_append_left _ hother)]
        simpa using hall now (by simp)
      · rintro ⟨other, hother, hexpired⟩
        by_cases hearlier : ∃ other, .sweep .abort other ∈ more ∧
            settings.abortWindow < elapsed other since
        · rw [hgone hearlier]
          rfl
        · have hall : ∀ now, .sweep .abort now ∈ more → elapsed now since ≤ settings.abortWindow :=
            fun now hnow => Nat.not_lt.mp fun hlate => hearlier ⟨now, hnow, hlate⟩
          rw [hkept hall]
          obtain hmem | hmem := List.mem_append.mp hother
          · exact absurd hexpired (Nat.not_lt.mpr (hall other hmem))
          · cases List.mem_singleton.mp hmem
            simpa using hexpired
    · have hmem : ∀ {now : Instant}, .sweep .abort now ∈ more ++ [action] →
          .sweep .abort now ∈ more := by
        intro now hnow
        obtain hnow | hnow := List.mem_append.mp hnow
        · exact hnow
        · exact absurd ⟨now, (List.mem_singleton.mp hnow).symm⟩ hsweep
      rw [tombstones_step hs (hmore action (by simp)) fun now heq => hsweep ⟨now, heq⟩]
      exact ⟨fun hall => hkept fun now hnow => hall now (List.mem_append_left _ hnow),
        fun ⟨now, hnow, hexpired⟩ => hgone ⟨now, hmem hnow, hexpired⟩⟩

/-! ## Sweeps that abort groups -/

/-- A sweep only aborts groups that are registered and due. -/
theorem due_of_aborted {registry later : Registry ν} {now : Instant}
    (hexpired : Registry.Expired now registry later) {id : Nat} {group aborted : Group ν}
    (hgroup : registry.groups[id]? = some group) (hlive : group.stage ≠ .aborted)
    (hlater : later.groups[id]? = some aborted) (haborted : aborted.stage = .aborted) :
    registry.Registered id ∧ registry.isDue now id = true := by
  by_contra hnot
  rw [hexpired.spared id fun hid => Bool.eq_false_iff.mpr fun hdue => hnot ⟨hid, hdue⟩,
    hgroup] at hlater
  rw [Option.some.inj hlater] at hlive
  contradiction

/-- The origin of a delayed group was aborted by the sweep that aborted the group, or its emission
was claimed before. -/
theorem origin_of_aborted
    (hstart : (launch label settings scheme slotBytes unstartable).1 = .ok start)
    (hseparator : scheme.separator.isDigit = false) (actions : List (Action ν ε))
    (hissued : (start.run actions).registry.issued ≤ scheme.cycle)
    (hopen : (start.run actions).registry.closed = false) {now : Instant} {later : Registry ν}
    (hexpired : Registry.Expired now (start.run actions).registry later)
    (hscheme : later.scheme = scheme) {id : Nat} {group : Group ν}
    (hgroup : (start.run actions).registry.groups[id]? = some group) (hkind : group.kind = .delayed)
    (hid : (start.run actions).registry.Registered id)
    (hdue : (start.run actions).registry.isDue now id = true) :
    later.OriginEnded group.key (some now) := by
  have hs : Staffed (start.run actions) := (Staffed.launch hstart).run actions
  obtain ⟨same, hsame, hold, habort⟩ := Registry.isDue_iff.mp hdue
  obtain rfl := Option.some.inj (hgroup.symm.trans hsame)
  obtain ⟨other, hother, hslots, -⟩ := (indexed_of_launch hstart actions).of_registered hid
  obtain rfl := Option.some.inj (hgroup.symm.trans hother)
  obtain ⟨place, origin, child, horigin, hnormal, hcreated, hkey, hstage⟩ :=
    rooted_run hstart hseparator actions hissued hopen id group hgroup hkind hslots habort
  rw [(run_constant hstart actions).2, ← hscheme] at hkey
  -- an origin that was claimed is the same after the sweep
  have hspared : origin.isAbortable = false → origin.IsEmitting →
      later.OriginEnded group.key (some now) := by
    intro hclaimed hemitting
    refine ⟨place, origin, child, ?_, hnormal, hkey, .inr hemitting⟩
    rw [hexpired.spared place fun _ => ?_, horigin]
    rw [Bool.eq_false_iff]
    intro hplace
    obtain ⟨same, hsame, -, habort'⟩ := Registry.isDue_iff.mp hplace
    rw [← Option.some.inj (horigin.symm.trans hsame), hclaimed] at habort'
    contradiction
  cases hstage with
  | inr hdone => exact hspared (by simp [Group.isAbortable, hdone, Stage.isMutable]) (.inr hdone)
  | inl hready =>
    cases hclaimed : origin.claimed with
    | true =>
      refine hspared ?_ (.inl ⟨hready, hclaimed⟩)
      simp [Group.isAbortable, hready, hclaimed, Stage.isMutable]
    | false =>
      have habort' : origin.isAbortable = true := by
        simp [Group.isAbortable, hready, hclaimed]
      have hfull := ((hs.attended place origin horigin).coherent.full (.inl hready)).1
      have hfind := enrolled_run hstart hseparator actions hissued hopen place origin horigin hfull
        (by rw [hready]; rfl)
      have hdue' : (start.run actions).registry.isDue now place = true := by
        refine Registry.isDue_iff.mpr ⟨origin, horigin, ?_, habort'⟩
        rwa [Group.age, hcreated]
      have hhead := Group.SameHead.abort origin (.aborted origin.key)
      refine ⟨place, _, child, hexpired.aborted _ _ place origin hfind horigin hdue',
        by rw [hhead.kind, hnormal], by rw [hhead.key, hkey], .inl ⟨?_, ?_⟩⟩
      · rw [Group.abort, if_pos habort']
      · rw [hhead.key]
        exact hexpired.marked _ _ place hfind hdue'

/-- The tombstone of the origin of an aborted delayed group is forgotten with that of the group. -/
theorem origin_run (hstart : (launch label settings scheme slotBytes unstartable).1 = .ok start)
    (hseparator : scheme.separator.isDigit = false) (actions more : List (Action ν ε))
    (hissued : (start.run (actions ++ more)).registry.issued ≤ scheme.cycle)
    (hmore : ∀ action ∈ more, action ≠ .close) {key : String} {since : Instant}
    (h : (start.run actions).registry.OriginEnded key (some since))
    (hexpires : ∃ now, .sweep .abort now ∈ more ∧ settings.abortWindow < elapsed now since) :
    (start.run (actions ++ more)).registry.OriginEnded key none := by
  obtain ⟨place, origin, child, horigin, hkind, hkey, hended⟩ := h
  rw [(run_constant hstart actions).2] at hkey
  rw [Registry.OriginEnded, (run_constant hstart (actions ++ more)).2]
  have hs : Staffed (start.run actions) := (Staffed.launch hstart).run actions
  cases hended with
  | inl haborted =>
    obtain ⟨hstage, hfind⟩ := haborted
    have hgone := (tombstone_run hstart hseparator actions more hissued hmore horigin hstage
      hfind).2 hexpires
    have hstill := ended_stays hs more horigin (by rw [hstage]; rfl)
    rw [← run_append] at hstill
    exact ⟨place, origin, child, hstill, hkind, hkey, .inl ⟨hstage, hgone⟩⟩
  | inr hemitting =>
    obtain ⟨later, hlater, hhead, hemitting'⟩ := group_stays
      (P := fun later => Group.SameHead origin later ∧ later.IsEmitting) hs
      (fun old changed hnext h => ⟨h.1.trans hnext.sameHead, hnext.isEmitting h.2⟩) more horigin
      ⟨.refl origin, hemitting⟩
    rw [← run_append] at hlater
    exact ⟨place, later, child, hlater, by rw [hhead.kind, hkind], by rw [hhead.key, hkey],
      .inr hemitting'⟩

/-- Calls on a key that leads nowhere are refused, and change nothing. -/
theorem refused_of_find {committer : Committer ν ε} (hopen : committer.registry.closed = false)
    {fullKey : String} {failure : Failure}
    (h : committer.registry.find fullKey = .error failure) (value : ν) :
    committer.store fullKey value = (.error failure, committer) ∧
      committer.remove fullKey = (.error failure, committer) := by
  rw [store, remove, Registry.store_of_find hopen h, Registry.remove_of_find hopen h]
  exact ⟨by rw [absorb_same], by rw [absorb_same]⟩

/-- Calls on the key of a slot that a group does not have any more, because it was moved out of it
before the group was ready. -/
theorem refused_of_emitting {committer : Committer ν ε}
    (hopen : committer.registry.closed = false) {fullKey : String} {id : Nat} {group : Group ν}
    (hfind : committer.registry.find fullKey = .ok id)
    (hgroup : committer.registry.groups[id]? = some group) (hemitting : group.IsEmitting)
    (hslots : ∀ slot ∈ group.slots, slot.fullKey ≠ fullKey) (value : ν) :
    committer.store fullKey value = (.error (.unknownKey fullKey), committer) ∧
      (group.stage = .ready → committer.remove fullKey =
        (.error (.illegalState fullKey .ready "group is already being emitted"), committer)) ∧
      (group.stage ≠ .ready →
        committer.remove fullKey = (.error (.unknownKey fullKey), committer)) := by
  have hlookup : committer.registry.lookup fullKey = .ok (id, group) := by
    rw [Registry.lookup, hfind]
    simp only [hgroup]
  have hput := Group.put_of_notMem hslots hemitting.stage_ne_aborted value
  have hremove : ∀ {failure : Failure}, group.remove fullKey = .error failure →
      committer.remove fullKey = (.error failure, committer) := by
    intro failure hfailure
    rw [remove, Registry.remove, if_neg (by simp [hopen]), hlookup]
    simp only [hfailure, absorb_same]
  refine ⟨?_, fun hready => hremove (by rw [Group.remove, hready]), fun hnot => hremove ?_⟩
  · rw [store, Registry.store, if_neg (by simp [hopen]), hlookup]
    simp only [hput, absorb_same]
  · rw [Group.remove, hemitting.resolve_left fun h => hnot h.1]

/-- Calls on the key of an aborted delayed group, once its tombstone is forgotten and so is that of
its origin, if there was one. -/
theorem refused_of_forgotten {committer : Committer ν ε} (hrouted : committer.registry.Routed)
    (hopen : committer.registry.closed = false) {id : Nat} {group : Group ν}
    (hgroup : committer.registry.groups[id]? = some group) (haborted : group.stage = .aborted)
    (hnone : committer.registry.tombstones.find? group.key = none)
    (h : committer.registry.OriginEnded group.key none) (value : ν) :
    committer.store group.key value = (.error (.unknownKey group.key), committer) ∧
      (∀ parent, committer.registry.ParentReady group.key parent →
        parent.claimed = true ∧ committer.remove group.key =
          (.error (.illegalState group.key .ready "group is already being emitted"), committer)) ∧
      ((∀ parent, ¬ committer.registry.ParentReady group.key parent) →
        committer.remove group.key = (.error (.unknownKey group.key), committer)) := by
  obtain ⟨place, origin, child, horigin, hnormal, hname, hended⟩ := h
  have hparent : committer.registry.scheme.parentOf? group.key = some origin.key := by
    rw [hname]
    exact hrouted.parentOf?_fullKey horigin hnormal child
  have hnone' : committer.registry.tombstones.find? origin.key = none := by
    obtain ⟨-, hnone'⟩ | hemitting := hended
    · exact hnone'
    · exact hrouted.tombstone_of_live horigin hemitting.stage_ne_aborted
  have hfind := hrouted.find_of_forgotten_origin hgroup haborted horigin hnormal hname hnone hnone'
  -- the group that is ready is the origin
  have hready : ∀ parent, committer.registry.ParentReady group.key parent →
      committer.registry.normal.find? origin.key = some place ∧ parent = origin ∧
        origin.stage = .ready := by
    rintro parent ⟨key, other, hkey, hother, hparentGroup, hstage⟩
    obtain rfl := Option.some.inj (hparent.symm.trans hkey)
    obtain ⟨same, hsame, -, hsameKey, -⟩ := hrouted.indexed.lives .normal hother
    obtain rfl := hrouted.id_of_key hsame horigin hsameKey
    obtain rfl := Option.some.inj (hparentGroup.symm.trans horigin)
    exact ⟨hother, rfl, hstage⟩
  cases hnormalFind : committer.registry.normal.find? origin.key with
  | none =>
    rw [hnormalFind] at hfind hready
    obtain ⟨hstore, hremove⟩ := refused_of_find hopen hfind value
    exact ⟨hstore, fun parent h => absurd (hready parent h).1 nofun, fun _ => hremove⟩
  | some other =>
    obtain ⟨same, hsame, -, hsameKey, -, hlive⟩ := hrouted.indexed.lives .normal hnormalFind
    obtain rfl := hrouted.id_of_key hsame horigin hsameKey
    obtain rfl := Option.some.inj (hsame.symm.trans horigin)
    have hemitting : same.IsEmitting := hended.resolve_left fun h => by
      rw [h.1] at hlive
      contradiction
    rw [hnormalFind] at hfind
    obtain ⟨hstore, hremove, hremove'⟩ := refused_of_emitting hopen hfind horigin hemitting
      (fun slot hslot => (hrouted.key_ne_fullKey horigin hnormal hslot hgroup).symm) value
    refine ⟨hstore, fun parent h => ?_, fun h => hremove' fun hstage => ?_⟩
    · obtain ⟨-, rfl, hstage⟩ := hready parent h
      obtain ⟨-, hclaimed⟩ | hdone := hemitting
      · exact ⟨hclaimed, hremove hstage⟩
      · rw [hdone] at hstage
        contradiction
    · exact h same ⟨same.key, other, hparent, hnormalFind, horigin, hstage⟩

/-- Calls on the slots of an aborted group, once its tombstone is forgotten and so is that of its
origin, if it is a delayed one. -/
theorem refused_of_ended {committer : Committer ν ε} (hrouted : committer.registry.Routed)
    (hopen : committer.registry.closed = false) {id : Nat} {group : Group ν}
    (hgroup : committer.registry.groups[id]? = some group) (haborted : group.stage = .aborted)
    (hnone : committer.registry.tombstones.find? group.key = none)
    (horigin : group.kind = .delayed → committer.registry.OriginEnded group.key none)
    {slot : Slot ν} (hslot : slot ∈ group.slots) (value : ν) :
    committer.store slot.fullKey value = (.error (.unknownKey slot.fullKey), committer) ∧
      (∀ parent, group.kind = .delayed → committer.registry.ParentReady slot.fullKey parent →
        parent.claimed = true ∧ committer.remove slot.fullKey =
          (.error (.illegalState slot.fullKey .ready "group is already being emitted"),
            committer)) ∧
      ((group.kind = .delayed → ∀ parent,
        ¬ committer.registry.ParentReady slot.fullKey parent) →
        committer.remove slot.fullKey = (.error (.unknownKey slot.fullKey), committer)) := by
  cases hkind : group.kind with
  | normal =>
    have hfound := hrouted.find_of_forgotten hgroup haborted hkind hslot hnone
    obtain ⟨hstore, hremove⟩ := refused_of_find hopen hfound value
    exact ⟨hstore, fun _ h => absurd h (by decide), fun _ => hremove⟩
  | delayed =>
    have hkey : slot.fullKey = group.key :=
      (hrouted.distinct.named id group hgroup).own hkind _ (List.mem_map_of_mem hslot)
    rw [hkey]
    obtain ⟨hstore, hready, hunknown⟩ :=
      refused_of_forgotten hrouted hopen hgroup haborted hnone (horigin hkind) value
    exact ⟨hstore, fun parent _ => hready parent, fun h => hunknown (h rfl)⟩

/-- What a sweep leaves of a group that it aborts. -/
theorem left_of_aborted
    (hstart : (launch label settings scheme slotBytes unstartable).1 = .ok start)
    (hseparator : scheme.separator.isDigit = false) (before : List (Action ν ε)) (since : Instant)
    (hissued : (start.run (before ++ [.sweep .abort since])).registry.issued ≤ scheme.cycle)
    {id : Nat} {group aborted : Group ν}
    (hgroup : (start.run before).registry.groups[id]? = some group)
    (hlive : group.stage ≠ .aborted)
    (haborted : (start.run (before ++ [.sweep .abort since])).registry.groups[id]? = some aborted)
    (hstage : aborted.stage = .aborted) :
    (start.run (before ++ [.sweep .abort since])).registry.closed = false ∧
      aborted = group.abort (.aborted group.key) ∧
      (start.run (before ++ [.sweep .abort since])).registry.tombstones.find? group.key =
        some since ∧
      (group.kind = .delayed →
        (start.run (before ++ [.sweep .abort since])).registry.OriginEnded group.key
          (some since)) := by
  have hbefore := Nat.le_trans (issued_le_of_append hstart hseparator before _) hissued
  have hscheme := (run_constant hstart (before ++ [.sweep .abort since])).2
  have hexpired : Registry.Expired since (start.run before).registry
      (start.run (before ++ [.sweep .abort since])).registry := by
    rw [run_append]
    exact Registry.expired_abortOld (indexed_of_launch hstart before) since
  obtain ⟨hid, hdue⟩ := due_of_aborted hexpired hgroup hlive haborted hstage
  have hfind := (indexed_of_launch hstart before).find?_of_registered hid hgroup
  -- the committer was open, or nothing would have been registered
  have hopen : (start.run before).registry.closed = false := by
    rw [Bool.eq_false_iff]
    intro hclosed
    rw [(shut_of_closed hstart before hclosed).find?_index] at hfind
    contradiction
  exact ⟨by rw [hexpired.closed, hopen],
    Option.some.inj (haborted.symm.trans (hexpired.aborted _ _ id group hfind hgroup hdue)),
    hexpired.marked _ _ id hfind hdue, fun hkind =>
      origin_of_aborted hstart hseparator before hbefore hopen hexpired hscheme hgroup hkind hid
        hdue⟩

/-- A sweep at instant `since` aborts a group, and the committer is not closed afterwards. In every
later state, for every full key that was one of a slot of the group:

* until a sweep that aborts groups runs later than the window after `since`, storing a value and
  removing the slot are refused as aborted, under the key of the group, and change nothing;
* after such a sweep, both are refused as unknown and change nothing; except that the removal is
  refused because the group is being emitted if the group was a delayed one and the group that
  its slot was reserved in is registered and ready. That one was claimed then. -/
theorem aborted_until_forgotten
    (hstart : (launch label settings scheme slotBytes unstartable).1 = .ok start)
    (hseparator : scheme.separator.isDigit = false) (before after : List (Action ν ε))
    (since : Instant)
    (hissued : (start.run (before ++ .sweep .abort since :: after)).registry.issued ≤ scheme.cycle)
    (hafter : ∀ action ∈ after, action ≠ .close) {id : Nat} {group aborted : Group ν}
    (hgroup : (start.run before).registry.groups[id]? = some group)
    (hlive : group.stage ≠ .aborted)
    (haborted : ((start.run before).step (.sweep .abort since)).registry.groups[id]? = some aborted)
    (hstage : aborted.stage = .aborted) {slot : Slot ν} (hslot : slot ∈ group.slots) (value : ν) :
    ((∀ now, .sweep .abort now ∈ after → elapsed now since ≤ settings.abortWindow) →
      (start.run (before ++ .sweep .abort since :: after)).store slot.fullKey value =
          (.error (.aborted group.key), start.run (before ++ .sweep .abort since :: after)) ∧
        (start.run (before ++ .sweep .abort since :: after)).remove slot.fullKey =
          (.error (.aborted group.key), start.run (before ++ .sweep .abort since :: after))) ∧
    ((∃ now, .sweep .abort now ∈ after ∧ settings.abortWindow < elapsed now since) →
      (start.run (before ++ .sweep .abort since :: after)).store slot.fullKey value =
          (.error (.unknownKey slot.fullKey),
            start.run (before ++ .sweep .abort since :: after)) ∧
        (∀ parent, group.kind = .delayed →
          (start.run (before ++ .sweep .abort since :: after)).registry.ParentReady slot.fullKey
            parent →
          parent.claimed = true ∧
            (start.run (before ++ .sweep .abort since :: after)).remove slot.fullKey =
              (.error (.illegalState slot.fullKey .ready "group is already being emitted"),
                start.run (before ++ .sweep .abort since :: after))) ∧
        ((group.kind = .delayed → ∀ parent,
          ¬ (start.run (before ++ .sweep .abort since :: after)).registry.ParentReady slot.fullKey
            parent) →
          (start.run (before ++ .sweep .abort since :: after)).remove slot.fullKey =
            (.error (.unknownKey slot.fullKey),
              start.run (before ++ .sweep .abort since :: after)))) := by
  rw [List.append_cons] at hissued ⊢
  have haborted' : (start.run (before ++ [.sweep .abort since])).registry.groups[id]? =
      some aborted := by
    rw [run_append]
    exact haborted
  obtain ⟨hopen, hsame, htombstone, horigin⟩ := left_of_aborted hstart hseparator before since
    (Nat.le_trans (issued_le_of_append hstart hseparator _ after) hissued) hgroup hlive haborted'
    hstage
  have hhead : Group.SameHead group aborted := by
    rw [hsame]
    exact .abort group _
  have hmem : slot ∈ aborted.slots := by
    rw [hsame, Group.abort]
    split <;> exact hslot
  rw [← hhead.key] at htombstone horigin ⊢
  rw [← hhead.kind] at horigin ⊢
  have hlast := open_of_append hstart _ after hafter hopen
  have hrouted := routed_run hstart hseparator _ hissued
  have hstill := ended_stays ((Staffed.launch hstart).run _) after haborted' (by rw [hstage]; rfl)
  rw [← run_append] at hstill
  obtain ⟨hkept, hgone⟩ :=
    tombstone_run hstart hseparator _ after hissued hafter haborted' hstage htombstone
  refine ⟨fun hall => ?_, fun hexpires => ?_⟩
  · have hfound := hrouted.find_of_tombstone hstill hstage hmem (hkept hall)
    exact refused_of_find hlast hfound value
  · have hended := fun hdelayed =>
      origin_run hstart hseparator _ after hissued hafter (horigin hdelayed) hexpires
    exact refused_of_ended hrouted hlast hstill hstage (hgone hexpires) hended hmem value

/-- The second of two slots was moved out of its group, and the emission of the first one was
claimed. -/
def straggler : List (Action Nat Unit) :=
  [.reserve 0 "a", .reserve 0 "b", .store "0000:a" 1, .sweep .relocate 5000, .look 0]

/-- The group of the second slot is aborted at 100 s while the first one is being emitted. The slot
is refused as aborted until a sweep at 200 s, and as one that is being emitted then. -/
theorem aborted_beside_emission_of_pair :
    ((launch "pairs" { Settings.default with slotCapacity := 2 } {} 72 none).1 = .ok pairs ∧
      ({} : KeyScheme).separator.isDigit = false ∧
      (pairs.run (straggler ++ [.sweep .abort 100000, .sweep .abort 200000])).registry.issued ≤
        ({} : KeyScheme).cycle) ∧
    ((pairs.run (straggler ++ [.sweep .abort 100000])).store "0000:b" 2).1 =
      .error (.aborted "0000:b") ∧
    ((pairs.run (straggler ++ [.sweep .abort 100000, .sweep .abort 200000])).store "0000:b" 2).1 =
      .error (.unknownKey "0000:b") ∧
    ((pairs.run (straggler ++ [.sweep .abort 100000, .sweep .abort 200000])).remove "0000:b").1 =
      .error (.illegalState "0000:b" .ready "group is already being emitted") := by
  have hstart : (launch "pairs" { Settings.default with slotCapacity := 2 } {} 72 none).1 =
      .ok pairs := rfl
  have hseparator : ({} : KeyScheme).separator.isDigit = false := by decide
  have hissued : (pairs.run (straggler ++ [.sweep .abort 100000])).registry.issued ≤
      ({} : KeyScheme).cycle := by decide +kernel
  have hissued' : (pairs.run (straggler ++ [.sweep .abort 100000,
      .sweep .abort 200000])).registry.issued ≤ ({} : KeyScheme).cycle := by decide +kernel
  have hgroup : (pairs.run straggler).registry.groups[1]? = some (.delayed
      { child := "b", fullKey := "0000:b" } "0000:b" 0 5000) := rfl
  have hslot : ({ child := "b", fullKey := "0000:b" } : Slot Nat) ∈
      (Group.delayed { child := "b", fullKey := "0000:b" } "0000:b" 0 5000).slots :=
    List.mem_cons_self
  have hready : (pairs.run (straggler ++ [.sweep .abort 100000,
      .sweep .abort 200000])).registry.ParentReady "0000:b" _ :=
    ⟨"0000", 0, by decide +kernel, by decide +kernel, rfl, rfl⟩
  have hkept := (aborted_until_forgotten hstart hseparator straggler [] 100000 hissued (by simp)
    hgroup (by decide +kernel) rfl rfl hslot 2).1 (by simp)
  have hgone := (aborted_until_forgotten hstart hseparator straggler [.sweep .abort 200000] 100000
    hissued' (by simp) hgroup (by decide +kernel) rfl rfl hslot 2).2
      ⟨200000, List.mem_cons_self, by decide⟩
  exact ⟨⟨hstart, hseparator, hissued'⟩, congrArg Prod.fst hkept.1, congrArg Prod.fst hgone.1,
    congrArg Prod.fst (hgone.2.1 _ rfl hready).2⟩

end Committer

end BatchedCommit
