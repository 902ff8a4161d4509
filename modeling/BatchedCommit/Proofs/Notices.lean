import BatchedCommit.Proofs.Ledger
import BatchedCommit.Proofs.Steady

/-!
# BatchedCommit.Proofs.Notices

What a section reports agrees with what it counts (`Registry.Tells`): the registry before it, its
events and the registry after it are compared. A section that neither opens a group nor fixes the
size of one is `Registry.Plain` in its groups, and only its counters are left to compare.

The size of a group is fixed in two places, by the reservation that fills it (`tells_reserve`) and
by a sweep (`tells_fixSizes`). Whichever it was, the group knows the instant from then on, and one
notice was given for it; no key has to tell the groups apart for that.
-/

namespace BatchedCommit

variable {ν : Type}

/-! ## What events stand for -/

/-- The kind of events that are reported as often as a thing is counted. Slots that are reserved or
removed are not reported; the number of values is in the event of their emission. -/
def Counter.kind? : Counter → Option EventKind
  | .groupsOpened => some .groupOpened
  | .slotsRelocated => some .slotRelocated
  | .groupsEmitted => some .groupEmitted
  | .emitFailures => some .groupEmitFailed
  | .groupsAborted => some .groupAborted
  | .groupsDiscarded => some .groupDiscarded
  | .sweeperPanics => some .sweeperPanicked
  | .slotsReserved | .slotsRemoved | .valuesEmitted => none

/-- Events say how often the thing has happened. -/
def Counter.isReported : Counter → Bool
  | .slotsReserved | .slotsRemoved => false
  | _ => true

namespace Event

/-- The number of values in an emission that succeeded. -/
def values : Event → Nat
  | groupEmitted _ values => values
  | _ => 0

/-- The parent key of a group whose size was fixed. -/
def fixed? : Event → Option String
  | groupSizeFixed parent _ | groupSizeFixTimeout parent _ => some parent
  | _ => none

/-- How often a thing has happened that is counted, as the event says. -/
def adds (counter : Counter) (event : Event) : Nat :=
  if counter = .valuesEmitted then event.values
  else if counter.kind? = some event.kind then 1 else 0

/-- An event of a kind that is counted stands for one more of the thing, and nothing else. -/
theorem adds_of_kind {own : Counter} {event : Event} (hown : own.kind? = some event.kind)
    (hvalues : event.values = 0) (counter : Counter) :
    event.adds counter = if counter = own then 1 else 0 := by
  cases own <;> cases event <;> simp_all [Counter.kind?, kind, values] <;>
    cases counter <;> simp [adds, Counter.kind?, kind, values]

/-- An event of a kind that is not counted stands for nothing. -/
theorem adds_of_not {event : Event} (kind : EventKind) (hkind : event.kind = kind)
    (hnot : ∀ own ∈ Counter.all, own.kind? ≠ some kind) (hvalues : event.values = 0)
    (counter : Counter) : event.adds counter = 0 := by
  have hown : counter.kind? ≠ some kind := hnot counter (by cases counter <;> decide)
  simp [adds, hkind, hown, hvalues]

end Event

/-- How often a thing has happened that is counted, as some events say. -/
def reported (counter : Counter) (events : List Event) : Nat :=
  (events.map (Event.adds counter)).sum

@[simp] theorem reported_nil (counter : Counter) : reported counter [] = 0 := rfl

@[simp] theorem reported_cons (counter : Counter) (event : Event) (events : List Event) :
    reported counter (event :: events) = event.adds counter + reported counter events := by
  simp [reported]

@[simp] theorem reported_append (counter : Counter) (first second : List Event) :
    reported counter (first ++ second) = reported counter first + reported counter second := by
  simp [reported]

theorem reported_valuesEmitted (events : List Event) :
    reported .valuesEmitted events = (events.map Event.values).sum :=
  congrArg List.sum (List.map_congr_left fun _ _ => if_pos rfl)

/-- A thing that has a kind of events has happened as often as there are such events. -/
theorem reported_of_kind {counter : Counter} {kind : EventKind} (h : counter.kind? = some kind)
    (events : List Event) : reported counter events = events.countP (·.kind == kind) := by
  have hvalues : counter ≠ .valuesEmitted := by
    rintro rfl
    contradiction
  induction events with
  | nil => rfl
  | cons event rest ih =>
    rw [reported_cons, ih, List.countP_cons, Event.adds, if_neg hvalues, h, Nat.add_comm]
    by_cases hkind : event.kind = kind
    · simp [hkind]
    · simp [hkind, Ne.symm hkind]

theorem Counters.get_bump (counters : Counters) (own counter : Counter) :
    (counters.bump own).get counter = counters.get counter + if counter = own then 1 else 0 := by
  rw [Counters.bump, Counters.get_add]
  split <;> rfl

/-! ## Groups whose size was fixed -/

namespace Group

/-- A normal group whose size was fixed. -/
def isFixed (group : Group ν) : Bool := group.kind == .normal && group.fixedAt.isSome

/-- A normal group of this parent key. -/
def bears (key : String) (group : Group ν) : Bool := group.kind == .normal && group.key == key

/-- A normal group of this parent key whose size was fixed. -/
def isFixedUnder (key : String) (group : Group ν) : Bool := group.isFixed && group.key == key

theorem fixedAt_markReady (group : Group ν) : group.markReady.fixedAt = group.fixedAt := by
  rw [markReady]
  split <;> rfl

theorem fixedAt_leftBehind (scheme : KeyScheme) (group : Group ν) :
    (group.leftBehind scheme).fixedAt = group.fixedAt := by
  rw [leftBehind]
  split
  · exact fixedAt_markReady _
  · rfl

theorem fixedAt_remove {group changed : Group ν} {fullKey : String}
    (h : group.remove fullKey = .ok changed) : changed.fixedAt = group.fixedAt := by
  obtain ⟨-, _, _, _, -, -, -, -, rfl⟩ := remove_eq_ok h
  rfl

theorem fixedAt_abort (group : Group ν) (reason : Failure) :
    (group.abort reason).fixedAt = group.fixedAt := by
  rw [abort]
  split <;> rfl

/-- The stage of a group says whether its size was fixed. -/
structure Dated (group : Group ν) : Prop where
  /-- The size of a group that takes reservations was not. -/
  opened : group.stage = .opened → group.kind = .normal ∧ group.fixedAt = none
  /-- That of any other group was, unless the group was aborted. -/
  fixed : group.stage ≠ .opened → group.stage ≠ .aborted → group.fixedAt.isSome = true

namespace Dated

variable {scheme : KeyScheme} {group changed : Group ν}

theorem markReady (h : group.Dated) : group.markReady.Dated := by
  rw [Group.markReady]
  split
  · next hcomplete =>
    have hstage := (isComplete_iff.mp hcomplete).1
    exact ⟨fun hopen => by contradiction,
      fun _ _ => h.fixed (by simp [hstage]) (by simp [hstage])⟩
  · exact h

theorem of_isAbortable (h : group.isAbortable = true) (reason : Failure) :
    (group.abort reason).Dated := by
  rw [Group.abort, if_pos h]
  exact ⟨fun hopen => by contradiction, fun _ hnot => absurd rfl hnot⟩

theorem fixSize (now : Instant) (hopen : group.stage = .opened) :
    (group.fixSize now).markReady.Dated := by
  rw [Group.fixSize, if_pos hopen]
  exact markReady ⟨fun hopen => by contradiction, fun _ _ => rfl⟩

theorem reserve (h : group.Dated) {now : Instant} {child fullKey : String}
    (hreserve : group.reserve now child fullKey = .ok changed) : changed.Dated := by
  obtain ⟨hopen, -, rfl⟩ := reserve_eq_ok hreserve
  have hopened := h.opened hopen
  constructor <;> dsimp only <;> split <;> simp_all

theorem quiet (h : group.Dated) (hquiet : Quiet scheme group changed) : changed.Dated := by
  cases hquiet with
  | reserve now child hreserve => exact h.reserve hreserve
  | remove fullKey hremove =>
    obtain ⟨-, _, _, _, -, -, -, -, rfl⟩ := remove_eq_ok hremove
    exact markReady ⟨h.opened, h.fixed⟩
  | fixSize now hopen => exact .fixSize now hopen
  | relieve now window hheld hscheme =>
    rw [extractLagging, if_pos hheld]
    exact markReady ⟨h.opened, h.fixed⟩
  | strip now window hheld hscheme =>
    rw [extractLagging, if_pos hheld]
    exact ⟨h.opened, h.fixed⟩
  | expire key habort => exact of_isAbortable habort _
  | close habort => exact of_isAbortable habort _

theorem next (h : group.Dated) (hnext : Next scheme group changed) : changed.Dated := by
  cases hnext with
  | quiet hshifts => exact hshifts.keep (fun _ _ hquiet ha => ha.quiet hquiet) h
  | store fullKey value hput =>
    obtain ⟨-, _, _, _, -, -, -, -, rfl⟩ := put_eq_ok hput
    exact markReady ⟨h.opened, h.fixed⟩
  | claim values hclaim =>
    obtain ⟨-, -, -, rfl⟩ := claim?_eq_some hclaim
    exact ⟨h.opened, h.fixed⟩
  | finish verdict hstage hclaimed =>
    exact ⟨fun hopen => by contradiction, fun _ _ => h.fixed (by simp [hstage]) (by simp [hstage])⟩

theorem newborn {capacity : Nat} (h : Newborn scheme capacity group) : group.Dated := by
  cases h with
  | normal index now child hreserve =>
    exact reserve ⟨fun _ => ⟨rfl, rfl⟩, fun hnot => absurd rfl hnot⟩ hreserve
  | delayed slot emitKey createdAt now hready hemit =>
    exact ⟨fun hopen => by contradiction, fun _ _ => rfl⟩

end Dated

/-- That the size was fixed is never taken back. -/
theorem Quiet.fixedAt_isSome {scheme : KeyScheme} {group changed : Group ν}
    (h : Quiet scheme group changed) (hsome : group.fixedAt.isSome = true) :
    changed.fixedAt.isSome = true := by
  cases h with
  | reserve now child hreserve =>
    rw [(reserve_eq_ok hreserve).2.2]
    dsimp only
    split
    · rfl
    · exact hsome
  | remove fullKey hremove => rwa [fixedAt_markReady, fixedAt_remove hremove]
  | fixSize now hopen =>
    rw [fixedAt_markReady, Group.fixSize, if_pos hopen]
    rfl
  | relieve now window hheld hscheme => rwa [fixedAt_markReady, extractLagging, if_pos hheld]
  | strip now window hheld hscheme => rwa [extractLagging, if_pos hheld]
  | expire key habort => rwa [fixedAt_abort]
  | close habort => rwa [fixedAt_abort]

theorem Next.fixedAt_isSome {scheme : KeyScheme} {group changed : Group ν}
    (h : Next scheme group changed) (hsome : group.fixedAt.isSome = true) :
    changed.fixedAt.isSome = true := by
  cases h with
  | quiet hshifts =>
    exact hshifts.keep (P := fun group => group.fixedAt.isSome = true)
      (fun _ _ hquiet ha => hquiet.fixedAt_isSome ha) hsome
  | store fullKey value hput =>
    obtain ⟨-, _, _, _, -, -, -, -, rfl⟩ := put_eq_ok hput
    rwa [fixedAt_markReady]
  | claim values hclaim =>
    obtain ⟨-, -, -, rfl⟩ := claim?_eq_some hclaim
    exact hsome
  | finish verdict hstage hclaimed => exact hsome

end Group

namespace Registry

variable {registry middle later : Registry ν} {events more : List Event}

/-- No parent key is borne by more normal groups than it was made for. -/
def Numbered (registry : Registry ν) : Prop :=
  ∀ key, tally (ones (Group.bears key)) registry.groups ≤
    ((List.range registry.issued).map registry.scheme.parentKey).count key

/-- The stage of every group says whether its size was fixed. -/
def Dated (registry : Registry ν) : Prop :=
  ∀ (id : Nat) (group : Group ν), registry.groups[id]? = some group → group.Dated

/-- From one registry to a later one no group is opened, and the size of none is fixed. -/
structure Plain (registry later : Registry ν) : Prop where
  issued : later.issued = registry.issued
  scheme : later.scheme = registry.scheme
  fixed : ∀ key, tally (ones (Group.isFixedUnder key)) later.groups =
    tally (ones (Group.isFixedUnder key)) registry.groups
  borne : ∀ key, tally (ones (Group.bears key)) later.groups =
    tally (ones (Group.bears key)) registry.groups

namespace Plain

theorem same (hgroups : later.groups = registry.groups) (hissued : later.issued = registry.issued)
    (hscheme : later.scheme = registry.scheme) : Plain registry later :=
  ⟨hissued, hscheme, fun _ => by rw [hgroups], fun _ => by rw [hgroups]⟩

/-- A group changes, but not what it was made with, nor when its size was fixed. -/
theorem set {id : Nat} {old new : Group ν} (hold : registry.groups[id]? = some old)
    (hhead : Group.SameHead old new) (hfixed : new.fixedAt = old.fixedAt)
    (hgroups : later.groups = registry.groups.setIfInBounds id new)
    (hissued : later.issued = registry.issued) (hscheme : later.scheme = registry.scheme) :
    Plain registry later where
  issued := hissued
  scheme := hscheme
  fixed := fun key => by
    rw [hgroups]
    refine tally_set_same hold ?_
    simp [within, Group.isFixedUnder, Group.isFixed, hhead.kind, hhead.key, hfixed]
  borne := fun key => by
    rw [hgroups]
    refine tally_set_same hold ?_
    simp [within, Group.bears, hhead.kind, hhead.key]

/-- Delayed groups are made. -/
theorem grow {made : Array (Group ν)}
    (hmade : ∀ (i : Nat) (group : Group ν), made[i]? = some group → group.kind = .delayed)
    (hgroups : later.groups = registry.groups ++ made) (hissued : later.issued = registry.issued)
    (hscheme : later.scheme = registry.scheme) : Plain registry later where
  issued := hissued
  scheme := hscheme
  fixed := fun key => by
    have hnone : tally (ones (Group.isFixedUnder key)) made = 0 :=
      tally_zero fun i group hgroup => by
        simp [within, Group.isFixedUnder, Group.isFixed, hmade i group hgroup]
    rw [hgroups, tally_append, hnone, Nat.add_zero]
  borne := fun key => by
    have hnone : tally (ones (Group.bears key)) made = 0 :=
      tally_zero fun i group hgroup => by simp [within, Group.bears, hmade i group hgroup]
    rw [hgroups, tally_append, hnone, Nat.add_zero]

theorem trans (h : Plain registry middle) (h' : Plain middle later) : Plain registry later where
  issued := h'.issued.trans h.issued
  scheme := h'.scheme.trans h.scheme
  fixed := fun key => (h'.fixed key).trans (h.fixed key)
  borne := fun key => (h'.borne key).trans (h.borne key)

theorem numbered (h : Plain registry later) (hnumbered : registry.Numbered) : later.Numbered :=
  fun key => by
    rw [h.borne, h.issued, h.scheme]
    exact hnumbered key

/-- Groups lose some of their slots. -/
theorem spare {now : Instant} {groups : Array (Group ν)} (hspares : registry.Spares now groups)
    (hsize : groups.size = registry.groups.size) (hgroups : later.groups = groups)
    (hissued : later.issued = registry.issued) (hscheme : later.scheme = registry.scheme) :
    Plain registry later where
  issued := hissued
  scheme := hscheme
  fixed := fun key => by
    rw [hgroups]
    refine hspares.tally_eq hsize fun group _ => ?_
    have hhead := Group.SameHead.leftBehind registry.scheme group
    simp [within, Group.isFixedUnder, Group.isFixed, hhead.kind, hhead.key,
      Group.fixedAt_leftBehind]
  borne := fun key => by
    rw [hgroups]
    refine hspares.tally_eq hsize fun group _ => ?_
    have hhead := Group.SameHead.leftBehind registry.scheme group
    simp [within, Group.bears, hhead.kind, hhead.key]

end Plain

theorem plain_unregister (registry : Registry ν) (kind : GroupKind) (key : String) (id : Nat) :
    Plain registry (registry.unregister kind key id) :=
  .same (registry.unregister_groups kind key id) (steady_unregister registry kind key id).issued
    (registry.unregister_scheme kind key id)

theorem plain_bump (registry : Registry ν) (counter : Counter) :
    Plain registry (registry.bump counter) := .same rfl rfl rfl

/-! ## Sections -/

/-- From one registry to a later one, some events say what has happened. -/
structure Tells (registry : Registry ν) (events : List Event) (later : Registry ν) : Prop where
  /-- What is counted, and reported at all, has happened as often as they say. -/
  counters : ∀ counter : Counter, counter.isReported = true →
    later.counters.get counter = registry.counters.get counter + reported counter events
  /-- There is a notice for each group whose size was fixed. -/
  notices : ∀ key, tally (ones (Group.isFixedUnder key)) later.groups =
    tally (ones (Group.isFixedUnder key)) registry.groups +
      (events.filterMap Event.fixed?).count key
  /-- Groups are opened under the parent keys that are made. -/
  numbered : registry.Numbered → later.Numbered

namespace Tells

theorem of_plain (h : Plain registry later) (hevents : events.filterMap Event.fixed? = [])
    (hcounters : ∀ counter : Counter, counter.isReported = true →
      later.counters.get counter = registry.counters.get counter + reported counter events) :
    Tells registry events later where
  counters := hcounters
  notices := fun key => by simp [hevents, h.fixed key]
  numbered := h.numbered

/-- Nothing is reported, and nothing happens that would be. -/
theorem silent (h : Plain registry later)
    (hcounters : ∀ counter : Counter, counter.isReported = true →
      later.counters.get counter = registry.counters.get counter) : Tells registry [] later :=
  .of_plain h rfl hcounters

/-- One event is reported for one thing that is counted. -/
theorem single (h : Plain registry later) (counter : Counter) {event : Event}
    (hcounters : later.counters = registry.counters.bump counter)
    (hkind : counter.kind? = some event.kind) (hvalues : event.values = 0)
    (hfixed : event.fixed? = none) : Tells registry [event] later :=
  .of_plain h (by simp [hfixed]) fun other _ => by
    rw [hcounters, Counters.get_bump, reported_cons, reported_nil, Event.adds_of_kind hkind hvalues,
      Nat.add_zero]

/-- One event is reported, of a kind that is not counted. -/
theorem remark (h : Plain registry later) {event : Event}
    (hcounters : later.counters = registry.counters) (kind : EventKind) (hkind : event.kind = kind)
    (hnot : ∀ own ∈ Counter.all, own.kind? ≠ some kind) (hvalues : event.values = 0)
    (hfixed : event.fixed? = none) : Tells registry [event] later :=
  .of_plain h (by simp [hfixed]) fun counter _ => by
    rw [hcounters, reported_cons, reported_nil, Event.adds_of_not kind hkind hnot hvalues]
    rfl

theorem refl (registry : Registry ν) : Tells registry [] registry :=
  .silent (.same rfl rfl rfl) fun _ _ => rfl

theorem trans (h : Tells registry events middle) (h' : Tells middle more later) :
    Tells registry (events ++ more) later where
  counters := fun counter hcounter => by
    rw [h'.counters counter hcounter, h.counters counter hcounter, reported_append, Nat.add_assoc]
  notices := fun key => by
    rw [h'.notices key, h.notices key, List.filterMap_append, List.count_append, Nat.add_assoc]
  numbered := fun hnumbered => h'.numbered (h.numbered hnumbered)

/-- Something is left to do that is not reported. -/
theorem silently (h : Tells registry events middle) (h' : Tells middle [] later) :
    Tells registry events later := by
  simpa using h.trans h'

end Tells

/-- Whether a notice is given for a group in which a slot was reserved. -/
theorem count_fillEvents {group changed : Group ν} (hkind : group.kind = .normal)
    (hfixed : group.fixedAt = none) {now : Instant} {child fullKey : String}
    (h : group.reserve now child fullKey = .ok changed) (key : String) :
    ((fillEvents changed).filterMap Event.fixed?).count key =
      ones (Group.isFixedUnder key) changed := by
  have hhead := Group.SameHead.reserve h
  obtain ⟨-, -, heq⟩ := Group.reserve_eq_ok h
  by_cases hfull : group.capacity ≤ group.slots.length + 1
  · have hstage : changed.stage = .sizeFixed := by rw [heq]; simp [hfull]
    have hsome : changed.fixedAt = some now := by rw [heq]; simp [hfull]
    rw [fillEvents, if_pos hstage]
    simp [Event.fixed?, List.count_singleton, ones, within, Group.isFixedUnder, Group.isFixed,
      hhead.kind, hkind, hsome]
  · have hstage : changed.stage = .opened := by rw [heq]; simp [hfull]
    have hnone : changed.fixedAt = none := by rw [heq]; simp [hfull, hfixed]
    rw [fillEvents, if_neg (by simp [hstage])]
    simp [ones, within, Group.isFixedUnder, Group.isFixed, hnone]

/-- Slots are reserved without an event. -/
theorem reported_fillEvents (group : Group ν) (counter : Counter) :
    reported counter (fillEvents group) = 0 := by
  rw [fillEvents]
  split
  · rw [reported_cons, reported_nil, Event.adds_of_not .groupSizeFixed rfl (by decide) rfl]
  · rfl

theorem tells_reserve (hdated : registry.Dated) (now : Instant) (child : String) :
    Tells registry (registry.reserve now child).events (registry.reserve now child).registry := by
  obtain ⟨-, heq⟩ | ⟨_, _, -, -, -, -, -, heq⟩ |
    ⟨id, group, changed, -, -, hgroup, hreserve, heq⟩ |
    ⟨parent, changed, -, -, -, rfl, hreserve, heq⟩ | ⟨-, -, -, heq⟩ :=
    registry.reserve_cases now child
  · rw [heq]
    exact .refl registry
  · rw [heq]
    exact .refl registry
  · rw [heq]
    obtain ⟨hkind, hfixed⟩ := (hdated id group hgroup).opened (Group.reserve_eq_ok hreserve).1
    have hhead := Group.SameHead.reserve hreserve
    refine ⟨fun counter hcounter => ?_, fun key => ?_, fun hnumbered key => ?_⟩
    · rw [reported_fillEvents]
      cases counter <;> first | rfl | contradiction
    · have hold : ones (Group.isFixedUnder key) group = 0 := by
        simp [within, Group.isFixedUnder, Group.isFixed, hfixed]
      have hset := tally_set (ones (Group.isFixedUnder key)) hgroup changed
      rw [count_fillEvents hkind hfixed hreserve]
      show tally _ (registry.groups.setIfInBounds id changed) = _
      omega
    · have hsame : ones (Group.bears key) changed = ones (Group.bears key) group := by
        simp [within, Group.bears, hhead.kind, hhead.key]
      exact (tally_set_same hgroup hsame).trans_le (hnumbered key)
  · rw [heq]
    have hhead := Group.SameHead.reserve hreserve
    refine ⟨fun counter hcounter => ?_, fun key => ?_, fun hnumbered key => ?_⟩
    · rw [reported_cons, reported_fillEvents]
      cases counter <;> first | rfl | contradiction
    · show tally _ (registry.groups.push changed) = _
      rw [tally_push, ← count_fillEvents rfl rfl hreserve]
      rfl
    · show tally _ (registry.groups.push changed) ≤
        ((List.range (registry.issued + 1)).map registry.scheme.parentKey).count key
      rw [tally_push, List.range_succ, List.map_append, List.count_append]
      refine Nat.add_le_add (hnumbered key) (Nat.le_of_eq ?_)
      simp [within, Group.bears, hhead.kind, hhead.key, Group.normal, List.count_singleton]
  · rw [heq]
    refine ⟨fun _ _ => rfl, fun _ => rfl, fun hnumbered key => (hnumbered key).trans ?_⟩
    show _ ≤ ((List.range (registry.issued + 1)).map registry.scheme.parentKey).count key
    rw [List.range_succ, List.map_append, List.count_append]
    exact Nat.le_add_right _ _

theorem tells_store (registry : Registry ν) (fullKey : String) (value : ν) :
    Tells registry (registry.store fullKey value).events
      (registry.store fullKey value).registry := by
  obtain ⟨_, heq⟩ | ⟨id, group, changed, -, -, hgroup, hput, heq⟩ :=
    registry.store_cases fullKey value
  · rw [heq]
    exact .refl registry
  · rw [heq]
    have hfixed : changed.fixedAt = group.fixedAt := by
      obtain ⟨-, _, _, _, -, -, -, -, rfl⟩ := Group.put_eq_ok hput
      rfl
    exact .silent (.set hgroup ((Group.SameHead.put hput).trans (.markReady _))
      ((Group.fixedAt_markReady changed).trans hfixed) rfl rfl rfl) fun _ _ => rfl

theorem tells_remove (registry : Registry ν) (fullKey : String) :
    Tells registry (registry.remove fullKey).events (registry.remove fullKey).registry := by
  have huncounted : ∀ {groups : Array (Group ν)} (counter : Counter), counter.isReported = true →
      ({ registry with groups }.bump .slotsRemoved).counters.get counter =
        registry.counters.get counter := by
    intro groups counter hcounter
    cases counter <;> first | rfl | contradiction
  obtain ⟨_, heq⟩ | ⟨id, group, changed, -, -, hgroup, hremove, -, heq⟩ |
    ⟨id, group, changed, -, -, hgroup, hremove, -, heq⟩ := registry.remove_cases fullKey
  · rw [heq]
    exact .refl registry
  · rw [heq]
    have hset : Tells registry [] ((registry.setGroup id changed).bump .slotsRemoved) :=
      .silent (.set hgroup (.remove hremove) (Group.fixedAt_remove hremove) rfl rfl rfl) huncounted
    have hgone := plain_unregister ((registry.setGroup id changed).bump .slotsRemoved)
      changed.kind changed.key id
    exact hset.trans (.single (hgone.trans (plain_bump _ _)) .groupsDiscarded
      (congrArg (·.bump .groupsDiscarded) (unregister_counters _ _ _ _)) rfl rfl rfl)
  · rw [heq]
    exact .silent (.set hgroup ((Group.SameHead.remove hremove).trans (.markReady changed))
      ((Group.fixedAt_markReady changed).trans (Group.fixedAt_remove hremove)) rfl rfl rfl)
      huncounted

theorem tells_glance (registry : Registry ν) (id : Nat) :
    Tells registry (registry.glance id).events (registry.glance id).registry := by
  obtain ⟨_, _, -, -, heq⟩ | ⟨group, values, changed, hgroup, -, hclaim, heq⟩ | ⟨-, heq⟩ :=
    registry.glance_cases id
  · rw [heq]
    exact .refl registry
  · rw [heq]
    have hfixed : changed.fixedAt = group.fixedAt := by rw [(Group.claim?_eq_some hclaim).2.2.2]
    exact .silent (.set hgroup (.claim? hclaim) hfixed rfl rfl rfl) fun _ _ => rfl
  · rw [heq]
    exact .refl registry

theorem tells_finish (registry : Registry ν) (id : Nat) (verdict : Verdict) :
    Tells registry [] (registry.finish id verdict) := by
  rw [finish]
  split
  · next group hgroup =>
    have hhead : Group.SameHead group (group.finish verdict) := ⟨rfl, rfl, rfl, rfl, rfl⟩
    exact .silent (.set hgroup hhead rfl rfl rfl rfl) fun _ _ => rfl
  · exact .refl registry

theorem tells_retire (registry : Registry ν) (id : Nat) :
    Tells registry [] (registry.retire id) := by
  rw [retire]
  split
  · exact .silent (plain_unregister _ _ _ _) fun _ _ => by rw [unregister_counters]
  · exact .refl registry

/-! ## Sweeps -/

/-- A group whose size is fixed by a sweep is not open afterwards, and has got its notice. -/
theorem tells_fixSizes (hdated : registry.Dated) (now : Instant) :
    Tells registry (registry.fixSizes now).events (registry.fixSizes now).registry := by
  suffices hboth : (registry.fixSizes now).registry.Dated ∧
      Tells registry (registry.fixSizes now).events (registry.fixSizes now).registry from hboth.2
  refine foldl_keep (P := fun state : Section ν Unit =>
    state.registry.Dated ∧ Tells registry state.events state.registry) _
    (fun state id _ hstate => ?_) ⟨hdated, .refl registry⟩
  obtain ⟨hold, htells⟩ := hstate
  obtain heq | ⟨group, hgroup, -, hopen, heq⟩ := fixSizeOf_cases now state id
  · rw [heq]
    exact ⟨hold, htells⟩
  · rw [heq]
    obtain ⟨hkind, hfixed⟩ := (hold id group hgroup).opened hopen
    have hhead : Group.SameHead group (group.fixSize now).markReady :=
      (Group.SameHead.fixSize group now).trans (.markReady _)
    have hsome : (group.fixSize now).markReady.fixedAt = some now := by
      rw [Group.fixedAt_markReady, Group.fixSize, if_pos hopen]
    refine ⟨fun other changed hchanged => ?_, htells.trans ⟨fun counter _ => ?_,
      fun key => ?_, fun hnumbered key => ?_⟩⟩
    · obtain ⟨rfl, rfl⟩ | ⟨-, hsame⟩ := getElem?_set_cases hchanged
      · exact .fixSize now hopen
      · exact hold other changed hsame
    · rw [reported_cons, reported_nil, Event.adds_of_not .groupSizeFixTimeout rfl (by decide) rfl]
      rfl
    · have hset := tally_set (ones (Group.isFixedUnder key)) hgroup (group.fixSize now).markReady
      have hbefore : ones (Group.isFixedUnder key) group = 0 := by
        simp [within, Group.isFixedUnder, Group.isFixed, hfixed]
      have hafter : ones (Group.isFixedUnder key) (group.fixSize now).markReady =
          ([Event.groupSizeFixTimeout group.key group.slots.length].filterMap
            Event.fixed?).count key := by
        simp [within, Group.isFixedUnder, Group.isFixed, hhead.kind, hhead.key, hkind, hsome,
          Event.fixed?, List.count_singleton]
      show tally _ (state.registry.groups.setIfInBounds id _) = _
      omega
    · have hsame : ones (Group.bears key) (group.fixSize now).markReady =
          ones (Group.bears key) group := by
        simp [within, Group.bears, hhead.kind, hhead.key]
      exact (tally_set_same hgroup hsame).trans_le (hnumbered key)

/-- What is reported of slots that are moved. -/
theorem reported_moves (source : String) (slots : List (Slot ν)) (counter : Counter) :
    reported counter (slots.map fun slot => .slotRelocated source slot.fullKey) =
      if counter = .slotsRelocated then slots.length else 0 := by
  induction slots with
  | nil => simp
  | cons slot rest ih =>
    have hkind : Counter.slotsRelocated.kind? =
        some (Event.slotRelocated source slot.fullKey).kind := rfl
    rw [List.map_cons, reported_cons, ih, Event.adds_of_kind hkind rfl]
    split
    · rw [List.length_cons, Nat.add_comm]
    · rfl

theorem tells_relocate (registry : Registry ν) (now : Instant) :
    Tells registry (registry.relocate now).events (registry.relocate now).registry := by
  obtain ⟨hplain, hevents, hcounters⟩ :
      Plain registry (registry.relieved now).state.registry ∧
      (registry.relieved now).state.events.filterMap Event.fixed? = [] ∧
      ∀ counter : Counter, counter.isReported = true →
        (registry.relieved now).state.registry.counters.get counter =
          registry.counters.get counter +
            reported counter (registry.relieved now).state.events := by
    refine foldl_keep (P := fun sweep : Relocation ν => Plain registry sweep.state.registry ∧
      sweep.state.events.filterMap Event.fixed? = [] ∧
      ∀ counter : Counter, counter.isReported = true → sweep.state.registry.counters.get counter =
        registry.counters.get counter + reported counter sweep.state.events) _
      (fun sweep id _ hsweep => ?_) ⟨.same rfl rfl rfl, rfl, fun _ _ => rfl⟩
    obtain ⟨hplain, hevents, hcounters⟩ := hsweep
    obtain ⟨heq, -⟩ | ⟨group, -, hgroup, -, -, heq⟩ := relieve_cases now sweep id
    · rw [heq]
      exact ⟨hplain, hevents, hcounters⟩
    · rw [heq]
      have hset : Plain sweep.state.registry (sweep.state.registry.setGroup id
          (group.leftBehind sweep.state.registry.scheme)) :=
        .set hgroup (.leftBehind _ _) (Group.fixedAt_leftBehind _ _) rfl rfl rfl
      refine ⟨(hplain.trans hset).trans (.grow (fun i made hmade => ?_) rfl rfl rfl), ?_,
        fun counter hcounter => ?_⟩
      · obtain ⟨slot, -, rfl⟩ : ∃ slot,
            (group.movable sweep.state.registry.scheme)[i]? = some slot ∧
              delayedFor sweep.state.registry.scheme now group slot = made := by simpa using hmade
        rfl
      · simp [Relocation.afterRelief, hevents, List.filterMap_map, Event.fixed?,
          Function.comp_def]
      · simp only [Relocation.afterRelief]
        rw [reported_append, reported_moves, Counters.get_add, hcounters counter hcounter]
        split <;> simp [Nat.add_assoc]
  cases hbroken : (registry.relieved now).broken with
  | true =>
    have hspare : Plain registry (registry.relocate now).registry := by
      obtain ⟨groups, count, hsize, hspares, heq⟩ := relocate_registry_of_broken hbroken
      rw [heq]
      exact .spare hspares hsize rfl rfl rfl
    rw [relocate_of_broken hbroken] at hspare ⊢
    exact .of_plain hspare hevents hcounters
  | false =>
    rw [relocate_of_not_broken hbroken]
    exact .of_plain (hplain.trans (.same rfl rfl rfl)) hevents hcounters

theorem plain_foldl_bury (now : Instant) (entries : List (GroupKind × String × Nat))
    (registry : Registry ν) : Plain registry (entries.foldl (bury now) registry) := by
  refine foldl_keep (P := Plain registry) _ (fun later entry _ hlater => hlater.trans ?_)
    (.same rfl rfl rfl)
  exact (plain_unregister later entry.1 entry.2.1 entry.2.2).trans (.same rfl rfl rfl)

theorem tells_abortOld (registry : Registry ν) (now : Instant) :
    Tells registry (registry.abortOld now).events (registry.abortOld now).registry := by
  have hstrikes : ∀ (kind : GroupKind) (entries : List (String × Nat)) (sweep : Abortion ν),
      Tells registry sweep.state.events sweep.state.registry →
      Tells registry (entries.foldl (Abortion.strike now kind) sweep).state.events
        (entries.foldl (Abortion.strike now kind) sweep).state.registry := by
    intro kind entries sweep hsweep
    refine foldl_keep
      (P := fun sweep : Abortion ν => Tells registry sweep.state.events sweep.state.registry) _
      (fun sweep entry _ hsweep => ?_) hsweep
    obtain heq | ⟨group, hgroup, -, -, heq⟩ := strike_cases now kind sweep entry.1 entry.2
    · rwa [heq]
    · rw [heq]
      have hset : Plain sweep.state.registry
          (sweep.state.registry.setGroup entry.2 (group.abort (.aborted entry.1))) :=
        .set hgroup (.abort group _) (group.fixedAt_abort _) rfl rfl rfl
      exact hsweep.trans (.single (hset.trans (plain_bump _ _)) .groupsAborted rfl rfl rfl rfl)
  have hpurge : Tells registry [] (registry.purge now) := .silent (.same rfl rfl rfl) fun _ _ => rfl
  refine (hstrikes .delayed _ _ (hstrikes .normal _ _ hpurge)).silently ?_
  exact .silent (plain_foldl_bury now _ _) fun _ _ =>
    congrArg (Counters.get · _) (counters_foldl_bury now _ _)

/-- Groups that are given up are reported, but not counted. -/
theorem tells_close (registry : Registry ν) :
    Tells registry registry.close.events registry.close.registry := by
  refine foldl_keep
    (P := fun state : Section ν Unit => Tells registry state.events state.registry) _
    (fun state id _ hstate => ?_) (.silent (.same rfl rfl rfl) fun _ _ => rfl)
  obtain heq | ⟨group, hgroup, -, heq⟩ := abandon_cases state id
  · rwa [heq]
  · rw [heq]
    have hset : Plain state.registry (state.registry.setGroup id (group.abort .closed)) :=
      .set hgroup (.abort group _) (group.fixedAt_abort _) rfl rfl rfl
    exact hstate.trans (.remark hset rfl .groupAbandoned rfl (by decide) rfl rfl)

end Registry

end BatchedCommit
