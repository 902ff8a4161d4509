import BatchedCommit.Proofs.Lifecycle
import BatchedCommit.Proofs.Naming

/-!
# BatchedCommit.Proofs.Handover

What the claim of an emission takes out of a group on its own, under any list of operations
(`Group.every_value_handed_over`). The list that is handed over has one entry for each slot, in the
order of reservation, and each entry is the value that was stored in its slot, at the one place of
the list of operations where that happened.

A slot is known by its child key: no two slots of a group have the same one at any time. Several
slots may have the same full key, and a value goes into the first of them. Values for different
full keys may arrive in any order (`Group.live_perm`).
-/

namespace BatchedCommit

namespace Group

variable {ν : Type} {start group changed : Group ν} {operation last : GroupOperation ν}
  {operations : List (GroupOperation ν)}

/-! ## Values for different keys -/

/-- A value for another full key finds the slots as if this one had not arrived, and the two can
arrive in either order. -/
theorem putIn_of_other {fullKey other : String} (hne : other ≠ fullKey) {value : ν} (second : ν)
    {slots put : List (Slot ν)} (h : putIn fullKey value slots = .ok put) :
    match putIn other second slots with
    | .error failure => putIn other second put = .error failure
    | .ok slots =>
      ∃ both, putIn other second put = .ok both ∧ putIn fullKey value slots = .ok both := by
  induction slots generalizing put with
  | nil => contradiction
  | cons first rest ih =>
    rw [putIn] at h
    split at h
    · next hkey =>
      cases hput : first.put value with
      | error failure => rw [hput] at h; contradiction
      | ok slot =>
        obtain rfl : slot :: rest = put := by simpa [hput, Except.map] using h
        have hslot : slot.fullKey = fullKey := by rw [(Slot.put_eq_ok hput).2, ← hkey]
        rw [putIn, if_neg (by rw [hkey]; exact hne.symm)]
        cases hrest : putIn other second rest with
        | error failure => simp [putIn, hslot, hne.symm, hrest, Except.map]
        | ok tail => simp [putIn, hslot, hkey, hne.symm, hrest, hput, Except.map]
    · next hkey =>
      cases hrest : putIn fullKey value rest with
      | error failure => rw [hrest] at h; contradiction
      | ok tail =>
        obtain rfl : first :: tail = put := by simpa [hrest, Except.map] using h
        have hih := ih hrest
        by_cases hother : first.fullKey = other
        · cases hput : first.put second with
          | error failure => simp [putIn, hother, hput, Except.map]
          | ok slot =>
            have hslot : slot.fullKey = other := by rw [(Slot.put_eq_ok hput).2, ← hother]
            simp [putIn, hother, hslot, hne, hput, hrest, Except.map]
        · cases hsecond : putIn other second rest with
          | error failure =>
            rw [hsecond] at hih
            simp [putIn, hother, hsecond, hih, Except.map]
          | ok slots =>
            rw [hsecond] at hih
            obtain ⟨both, hboth, hboth'⟩ := hih
            simp [putIn, hother, hkey, hsecond, hboth, hboth', Except.map]

/-- As long as a group has not ended, a value goes into its slots. -/
theorem put_of_live (h : group.stage.isTerminal = false) (fullKey : String) (value : ν) :
    group.put fullKey value =
      (putIn fullKey value group.slots).map fun slots => { group with slots } := by
  rw [put]
  cases hstage : group.stage with
  | opened | sizeFixed | ready => rfl
  | done | aborted => rw [hstage] at h; contradiction

/-- A value for another full key finds the group as if this one had not arrived, and the two can
arrive in either order. -/
theorem put_of_other {fullKey other : String} (hne : other ≠ fullKey) {value : ν} (second : ν)
    (h : group.put fullKey value = .ok changed) :
    match group.put other second with
    | .error failure => changed.put other second = .error failure
    | .ok later =>
      ∃ both, changed.put other second = .ok both ∧ later.put fullKey value = .ok both := by
  have hlive := (put_eq_ok h).1
  rw [put_of_live hlive] at h
  cases hslots : putIn fullKey value group.slots with
  | error failure => rw [hslots] at h; contradiction
  | ok slots =>
    obtain rfl : { group with slots } = changed := by simpa [hslots, Except.map] using h
    have hother := putIn_of_other hne second hslots
    have hchanged : { group with slots }.stage.isTerminal = false := hlive
    rw [put_of_live hlive, put_of_live hchanged]
    cases hsecond : putIn other second group.slots with
    | error failure =>
      rw [hsecond] at hother
      simp [hother, Except.map]
    | ok later =>
      rw [hsecond] at hother
      obtain ⟨both, hboth, hboth'⟩ := hother
      have hlater : { group with slots := later }.stage.isTerminal = false := hlive
      refine ⟨{ group with slots := both }, by simp [hboth, Except.map], ?_⟩
      rw [put_of_live hlater, hboth']
      rfl

/-- Two values for different full keys are answered alike in both orders, and lead to the same
group. -/
theorem perform_put_comm (group : Group ν) {fullKey other : String} (hne : other ≠ fullKey)
    (value second : ν) :
    ((group.perform (.put fullKey value)).2.perform (.put other second)).1 =
        (group.perform (.put other second)).1 ∧
      ((group.perform (.put fullKey value)).2.perform (.put other second)).2 =
        ((group.perform (.put other second)).2.perform (.put fullKey value)).2 := by
  cases hfirst : group.put fullKey value with
  | error failure =>
    cases hsecond : group.put other second with
    | error refusal => simp [perform, settle, hfirst, hsecond]
    | ok later =>
      have hagain := put_of_other hne.symm value hsecond
      rw [hfirst] at hagain
      simp [perform, settle, hfirst, hsecond, hagain]
  | ok changed =>
    have hother := put_of_other hne second hfirst
    cases hsecond : group.put other second with
    | error refusal =>
      rw [hsecond] at hother
      simp [perform, settle, hfirst, hsecond, hother]
    | ok later =>
      rw [hsecond] at hother
      obtain ⟨both, hboth, hboth'⟩ := hother
      simp [perform, settle, hfirst, hsecond, hboth, hboth']

/-! ## Lists of values -/

/-- What the callers of a list of operations are told, in order. -/
def replies (group : Group ν) : List (GroupOperation ν) → List (GroupReply ν)
  | [] => []
  | operation :: rest => (group.perform operation).1 :: (group.perform operation).2.replies rest

/-- The operations that store these values, each under its full key. -/
def puts (values : List (String × ν)) : List (GroupOperation ν) :=
  values.map fun (fullKey, value) => .put fullKey value

/-- Values for different full keys may arrive in any order: the caller of each is told the same, and
the group is the same afterwards. -/
theorem live_perm {values others : List (String × ν)} (hperm : values.Perm others)
    (hkeys : (values.map Prod.fst).Nodup) (group : Group ν) :
    (values.zip (group.replies (puts values))).Perm (others.zip (group.replies (puts others))) ∧
      group.live (puts values) = group.live (puts others) := by
  induction hperm generalizing group with
  | nil => exact ⟨.refl _, rfl⟩
  | cons first _ ih =>
    obtain ⟨htold, hlive⟩ :=
      ih (List.nodup_cons.mp hkeys).2 (group.perform (.put first.1 first.2)).2
    exact ⟨htold.cons _, hlive⟩
  | swap one two rest =>
    have hne : one.1 ≠ two.1 := by
      intro heq
      exact (List.nodup_cons.mp hkeys).1 (by simp [heq])
    obtain ⟨hone, hboth⟩ := perform_put_comm group hne two.2 one.2
    have htwo := (perform_put_comm group hne.symm one.2 two.2).1
    constructor
    · simp only [puts, List.map_cons, replies, List.zip_cons_cons, hone, htwo, hboth]
      exact .swap _ _ _
    · simp only [puts, List.map_cons, live, List.foldl_cons, hboth]
  | trans hfirst _ ih ih' =>
    obtain ⟨htold, hlive⟩ := ih hkeys group
    obtain ⟨htold', hlive'⟩ := ih' ((hfirst.map _).nodup_iff.mp hkeys) group
    exact ⟨htold.trans htold', hlive.trans hlive'⟩

/-! ## Events in a life -/

/-- At a place of a list of operations something happens: it holds of the operation there and of the
group right before it. -/
def Occurs (start : Group ν) (operations : List (GroupOperation ν)) (place : Nat)
    (event : Group ν → GroupOperation ν → Prop) : Prop :=
  ∃ operation, operations[place]? = some operation ∧
    event (start.live (operations.take place)) operation

/-- The operation reserves a slot of these keys. -/
def Reserves (name : String × String) (group : Group ν) (operation : GroupOperation ν) : Prop :=
  ∃ now, operation = .reserve now name.1 name.2 ∧ (group.perform operation).1 = .verdict (.ok ())

/-- The operation stores a value in the slot of a child key: the full key that it names leads to
this slot first. -/
def Stores (child : String) (value : ν) (group : Group ν) (operation : GroupOperation ν) : Prop :=
  ∃ fullKey, operation = .put fullKey value ∧ (group.perform operation).1 = .verdict (.ok ()) ∧
    (group.slots.find? (·.fullKey == fullKey)).map Slot.child = some child

/-- The operation claims the emission, and is handed these values. -/
def HandsOver (values : List ν) (group : Group ν) (operation : GroupOperation ν) : Prop :=
  operation = .claim ∧ (group.perform operation).1 = .values (some values)

/-- One more operation adds what it does to what happened before. -/
theorem occurs_concat {place : Nat} {event : Group ν → GroupOperation ν → Prop} :
    start.Occurs (operations ++ [last]) place event ↔
      start.Occurs operations place event ∨
        place = operations.length ∧ event (start.live operations) last := by
  rcases Nat.lt_trichotomy place operations.length with hlt | rfl | hgt
  · simp [Occurs, List.getElem?_append_left hlt, List.take_append_of_le_length (Nat.le_of_lt hlt),
      Nat.ne_of_lt hlt]
  · simp [Occurs]
  · have hnone : (operations ++ [last])[place]? = none :=
      List.getElem?_eq_none (by simpa [Nat.succ_le_iff] using hgt)
    simp [Occurs, hnone, List.getElem?_eq_none (Nat.le_of_lt hgt), Nat.ne_of_gt hgt]

section Occurs

variable {place : Nat} {event : Group ν → GroupOperation ν → Prop}

theorem Occurs.lt (h : start.Occurs operations place event) : place < operations.length := by
  obtain ⟨operation, hoperation, -⟩ := h
  exact (List.getElem?_eq_some_iff.mp hoperation).1

/-- What happened in the first part of a list happens in the whole list. -/
theorem Occurs.append (h : start.Occurs operations place event)
    (more : List (GroupOperation ν)) : start.Occurs (operations ++ more) place event := by
  obtain ⟨operation, hoperation, hevent⟩ := id h
  refine ⟨operation, ?_, ?_⟩
  · rw [List.getElem?_append_left h.lt, hoperation]
  · rwa [List.take_append_of_le_length (Nat.le_of_lt h.lt)]

end Occurs

/-! ## What one operation does to the slots -/

/-- A value that is stored goes into a slot that has none. -/
theorem Stores.split {child : String} {value : ν} (h : Stores child value group operation) :
    ∃ before slot after, group.slots = before ++ slot :: after ∧ slot.child = child ∧
      slot.isReady = false ∧
      (group.perform operation).2 =
        { group with slots := before ++ { slot with holding := .held value } :: after } := by
  obtain ⟨fullKey, rfl, hok, hfind⟩ := h
  cases hput : group.put fullKey value with
  | error failure => simp [perform, settle, hput] at hok
  | ok changed =>
    obtain ⟨-, before, slot, after, hslots, hkey, hbefore, hready, hchanged⟩ := put_eq_ok hput
    have hfirst : group.slots.find? (·.fullKey == fullKey) = some slot :=
      List.find?_eq_some_iff_append.mpr ⟨by simpa using hkey, before, after, hslots,
        fun other hother => by simpa using hbefore other hother⟩
    refine ⟨before, slot, after, hslots, by simpa [hfirst] using hfind, hready, ?_⟩
    simp [perform, settle, hput, hchanged]

/-- A value goes into one slot. -/
theorem Stores.unique {child other : String} {value second : ν}
    (h : Stores child value group operation) (h' : Stores other second group operation) :
    child = other ∧ value = second := by
  obtain ⟨fullKey, rfl, -, hfind⟩ := h
  obtain ⟨key, heq, -, hfind'⟩ := h'
  obtain ⟨rfl, rfl⟩ := GroupOperation.put.inj heq
  exact ⟨Option.some.inj (hfind.symm.trans hfind'), rfl⟩

/-- A reservation adds its slot at the end, under a child key of its own. -/
theorem Reserves.names_eq {name : String × String} (h : Reserves name group operation) :
    name.1 ∉ group.names.map Prod.fst ∧
      (group.perform operation).2.names = group.names ++ [name] := by
  obtain ⟨now, rfl, hok⟩ := h
  cases hreserve : group.reserve now name.1 name.2 with
  | error failure => simp [perform, settle, hreserve] at hok
  | ok changed =>
    obtain ⟨-, hchild, hchanged⟩ := reserve_eq_ok hreserve
    refine ⟨by simpa [Group.names, Slot.names, Function.comp_def] using hchild, ?_⟩
    simp [perform, settle, hreserve, hchanged, Group.names, Slot.names, Slot.reserved]

/-- Apart from reservations, no operation adds a slot or puts slots into another order. -/
theorem shrinks_perform (hnot : ∀ name, ¬ Reserves name group operation) :
    Shrinks group (group.perform operation).2 := by
  cases operation with
  | reserve now child fullKey =>
    rw [perform]
    cases h : group.reserve now child fullKey with
    | ok changed => exact absurd ⟨now, rfl, by simp [perform, settle, h]⟩ (hnot (child, fullKey))
    | error failure => exact .refl group
  | put fullKey value =>
    rw [perform]
    cases h : group.put fullKey value with
    | ok changed => exact (Steady.put h).shrinks
    | error failure => exact .refl group
  | remove fullKey =>
    rw [perform]
    cases h : group.remove fullKey with
    | ok changed => exact .remove h
    | error failure => exact .refl group
  | fixSize now => exact (Steady.fixSize group now).shrinks
  | markReady => exact (Steady.markReady group).shrinks
  | extractLagging now window => exact .extractLagging group now window
  | claim =>
    rw [perform]
    cases h : group.claim? with
    | some pair => exact (Steady.claim? h).shrinks
    | none => exact .refl group
  | finish verdict => exact (Steady.finish group verdict).shrinks
  | abort reason => exact (Steady.abort group reason).shrinks

/-- The slots that are ready are those that were, with the values that they held as long as nobody
claims them. -/
structure KeepsReady (group changed : Group ν) : Prop where
  /-- None has become ready. -/
  back : ∀ slot ∈ changed.slots, slot.isReady = true →
    ∃ old ∈ group.slots, old.child = slot.child ∧ old.isReady = true
  /-- None is missing, or has lost its value. -/
  ahead : ∀ slot ∈ group.slots, slot.isReady = true →
    ∃ new ∈ changed.slots, new.child = slot.child ∧ new.isReady = true ∧
      (changed.claimed = false → group.claimed = false ∧ new.value? = slot.value?)

theorem KeepsReady.of_filter (hclaimed : changed.claimed = group.claimed)
    (h : changed.slots.filter Slot.isReady = group.slots.filter Slot.isReady) :
    KeepsReady group changed where
  back := fun slot hslot hready => by
    have hmem := List.mem_filter.mpr ⟨hslot, hready⟩
    rw [h] at hmem
    exact ⟨slot, (List.mem_filter.mp hmem).1, rfl, hready⟩
  ahead := fun slot hslot hready => by
    have hmem := List.mem_filter.mpr ⟨hslot, hready⟩
    rw [← h] at hmem
    exact ⟨slot, (List.mem_filter.mp hmem).1, rfl, hready, fun hnot => ⟨hclaimed ▸ hnot, rfl⟩⟩

/-- An operation that stores no value leaves the slots that are ready as they are. -/
theorem Effect.keepsReady (h : Effect group operation changed)
    (hnot : ∀ child value, ¬ Stores child value group operation) : KeepsReady group changed := by
  cases h with
  | keep => exact .of_filter rfl rfl
  | reserve h =>
    obtain ⟨-, -, rfl⟩ := reserve_eq_ok h
    exact .of_filter rfl (by simp [Slot.reserved, Slot.isReady])
  | @put _ fullKey value h =>
    obtain ⟨-, before, slot, after, hslots, hkey, hbefore, -, rfl⟩ := Group.put_eq_ok h
    have hfirst : group.slots.find? (·.fullKey == fullKey) = some slot :=
      List.find?_eq_some_iff_append.mpr ⟨by simpa using hkey, before, after, hslots,
        fun other hother => by simpa using hbefore other hother⟩
    exact absurd ⟨fullKey, rfl, by simp [perform, settle, h], by rw [hfirst]; rfl⟩
      (hnot slot.child value)
  | remove h =>
    obtain ⟨-, before, slot, after, hslots, -, -, hready, rfl⟩ := remove_eq_ok h
    exact .of_filter rfl (by simp [hslots, hready])
  | fixSize h => exact .of_filter rfl rfl
  | markReady h => exact .of_filter rfl rfl
  | extract h => exact .of_filter rfl (by simp)
  | claim h =>
    obtain ⟨-, -, -, rfl⟩ := claim?_eq_some h
    refine ⟨fun slot hslot hready => ?_, fun slot hslot hready => ?_⟩
    · obtain ⟨old, hold, rfl⟩ := List.mem_map.mp hslot
      exact ⟨old, hold, old.handOver_child.symm, by simpa using hready⟩
    · exact ⟨slot.handOver, List.mem_map_of_mem hslot, slot.handOver_child, by simpa using hready,
        fun hunclaimed => by contradiction⟩
  | finish => exact .of_filter rfl rfl
  | abort h => exact .of_filter rfl rfl

theorem Coherent.effect (h : group.Coherent) (heffect : Effect group operation changed)
    (hadmits : group.admits operation = true) : changed.Coherent := by
  cases heffect with
  | keep => exact h
  | reserve hreserve => exact h.reserve hreserve
  | put hput => exact h.put hput
  | remove hremove => exact h.remove hremove
  | @fixSize now hopen => simpa [Group.fixSize, hopen] using h.fixSize now
  | markReady hcomplete => simpa [Group.markReady, hcomplete] using h.markReady
  | @extract now window hheld =>
    simpa [Group.extractLagging, hheld] using h.extractLagging now window
  | claim hclaim => exact h.claim? hclaim
  | @finish verdict => exact h.finish (by simpa [admits] using hadmits) verdict
  | @abort reason habort => simpa [Group.abort, habort] using h.abort reason

/-! ## Where values come from -/

/-- Where the slot of a child key has its value from: it held it when the group was made, or the
value was stored at a place of the list of operations. -/
inductive Arrives (start : Group ν) (operations : List (GroupOperation ν)) (child : String) :
    Option Nat → ν → Prop where
  | given {slot : Slot ν} {value : ν} (hslot : slot ∈ start.slots) (hchild : slot.child = child)
      (hvalue : slot.value? = some value) : Arrives start operations child none value
  | stored {place : Nat} {value : ν} (h : start.Occurs operations place (Stores child value)) :
      Arrives start operations child (some place) value

section Arrives

variable {child : String} {origin : Option Nat} {value : ν}

theorem arrives_concat : start.Arrives (operations ++ [last]) child origin value ↔
    start.Arrives operations child origin value ∨
      origin = some operations.length ∧ Stores child value (start.live operations) last := by
  constructor
  · rintro (⟨hslot, hchild, hvalue⟩ | h)
    · exact .inl (.given hslot hchild hvalue)
    · obtain hbefore | ⟨rfl, hlast⟩ := occurs_concat.mp h
      · exact .inl (.stored hbefore)
      · exact .inr ⟨rfl, hlast⟩
  · rintro ((⟨hslot, hchild, hvalue⟩ | h) | ⟨rfl, h⟩)
    · exact .given hslot hchild hvalue
    · exact .stored (occurs_concat.mpr (.inl h))
    · exact .stored (occurs_concat.mpr (.inr ⟨rfl, h⟩))

theorem Arrives.append (h : start.Arrives operations child origin value)
    (more : List (GroupOperation ν)) : start.Arrives (operations ++ more) child origin value := by
  cases h with
  | given hslot hchild hvalue => exact .given hslot hchild hvalue
  | stored h => exact .stored (h.append more)

/-- A value arrives before the list of operations is over. -/
theorem Arrives.lt (h : start.Arrives operations child origin value) {place : Nat}
    (hplace : origin = some place) : place < operations.length := by
  cases h with
  | given => contradiction
  | stored h => exact Option.some.inj hplace ▸ h.lt

end Arrives

/-- The slots that are ready after a list of operations, and where their values came from. -/
structure Recorded (start : Group ν) (operations : List (GroupOperation ν)) : Prop where
  /-- No two slots have the same child key. -/
  distinct : ((start.live operations).names.map Prod.fst).Nodup
  /-- A value that has arrived is in its slot, as long as the emission is not claimed. -/
  held : ∀ child origin value, start.Arrives operations child origin value →
    ∃ slot ∈ (start.live operations).slots, slot.child = child ∧ slot.isReady = true ∧
      ((start.live operations).claimed = false → slot.value? = some value)
  /-- A slot that is ready has its value from somewhere, -/
  arrived : ∀ slot ∈ (start.live operations).slots, slot.isReady = true →
    ∃ origin value, start.Arrives operations slot.child origin value
  /-- and from one place only. -/
  once : ∀ child origin other value second, start.Arrives operations child origin value →
    start.Arrives operations child other second → origin = other ∧ value = second

theorem child_inj (h : (group.names.map Prod.fst).Nodup) {slot other : Slot ν}
    (hslot : slot ∈ group.slots) (hother : other ∈ group.slots)
    (hchild : slot.child = other.child) : slot = other := by
  have hnodup : (group.slots.map Slot.child).Nodup := by
    simpa [Group.names, Slot.names, Function.comp_def] using h
  exact List.inj_on_of_nodup_map hnodup hslot hother hchild

theorem isReady_of_value? {slot : Slot ν} {value : ν} (h : slot.value? = some value) :
    slot.isReady = true := by
  obtain ⟨child, key, _ | held | _⟩ := slot
  · contradiction
  · rfl
  · contradiction

namespace Recorded

/-- A group that is made has at most one slot, and whatever that holds was there from the start. -/
theorem initial (hstart : Initial start)
    (hheld : ∀ slot ∈ start.slots, slot.isReady = true → slot.value?.isSome = true) :
    Recorded start [] := by
  have hsame : ∀ slot ∈ start.slots, ∀ other ∈ start.slots, slot = other := by
    cases hstart with
    | normal parent capacity now => exact fun _ hslot => by contradiction
    | delayed slot emitKey createdAt now => simp [Group.delayed]
  have hnone : ∀ {place : Nat} {event : Group ν → GroupOperation ν → Prop},
      ¬ start.Occurs [] place event := fun h => by simpa using h.lt
  exact {
    distinct := by
      cases hstart with
      | normal parent capacity now => exact List.nodup_nil
      | delayed slot emitKey createdAt now => exact List.nodup_singleton _
    held := by
      rintro child origin value (⟨hslot, hchild, hvalue⟩ | h)
      · rename_i slot
        exact ⟨slot, hslot, hchild, isReady_of_value? hvalue, fun _ => hvalue⟩
      · exact absurd h hnone
    arrived := fun slot hslot hready => by
      obtain ⟨value, hvalue⟩ := Option.isSome_iff_exists.mp (hheld slot hslot hready)
      exact ⟨none, value, .given hslot rfl hvalue⟩
    once := by
      rintro child origin other value second (⟨hslot, hchild, hvalue⟩ | h)
        (⟨hslot', -, hvalue'⟩ | h')
      · obtain rfl := hsame _ hslot _ hslot'
        exact ⟨rfl, Option.some.inj (hvalue.symm.trans hvalue')⟩
      · exact absurd h' hnone
      · exact absurd h hnone
      · exact absurd h hnone }

theorem distinct_concat (h : Recorded start operations) (last : GroupOperation ν) :
    (((start.live operations).perform last).2.names.map Prod.fst).Nodup := by
  by_cases hreserves : ∃ name, Reserves name (start.live operations) last
  · obtain ⟨name, hname⟩ := hreserves
    obtain ⟨hfresh, hnames⟩ := hname.names_eq
    rw [hnames, List.map_append, List.map_singleton, ← List.concat_eq_append]
    exact h.distinct.concat hfresh
  · exact h.distinct.sublist ((shrinks_perform (not_exists.mp hreserves)).names.map _)

/-- Nothing has arrived for a slot that a value is stored in now. -/
theorem not_arrives (h : Recorded start operations) {child : String} {value : ν}
    (hstores : Stores child value (start.live operations) last) (origin : Option Nat) (second : ν) :
    ¬ start.Arrives operations child origin second := by
  intro harrives
  obtain ⟨before, slot, after, hslots, hchild, hready, -⟩ := hstores.split
  obtain ⟨other, hmem, hsame, hother, -⟩ := h.held child origin second harrives
  have hslot : slot ∈ (start.live operations).slots := by simp [hslots]
  rw [child_inj h.distinct hmem hslot (hsame.trans hchild.symm), hready] at hother
  contradiction

/-- A value that is stored arrives for its slot; the other slots are as they were. -/
theorem store (h : Recorded start operations) {child : String} {value : ν}
    (hstores : Stores child value (start.live operations) last) :
    Recorded start (operations ++ [last]) := by
  obtain ⟨before, slot, after, hslots, rfl, hready, hperform⟩ := hstores.split
  have hlive : start.live (operations ++ [last]) = _ :=
    (live_append start operations [last]).trans hperform
  have hother : ∀ {other}, other ∈ before ∨ other ∈ after →
      other ∈ (start.live operations).slots := by
    rintro other (hmem | hmem) <;> simp [hslots, hmem]
  refine ⟨?_, fun child origin second harrives => ?_, fun other hmem hotherReady => ?_,
    fun child origin place second third harrives harrives' => ?_⟩
  · rw [live_append]
    exact h.distinct_concat last
  · obtain harrives | ⟨-, hlast⟩ := arrives_concat.mp harrives
    · obtain ⟨other, hmem, hsame, hotherReady, hvalue⟩ := h.held _ _ _ harrives
      rw [hslots, List.mem_append, List.mem_cons] at hmem
      refine ⟨other, ?_, hsame, hotherReady, by rwa [hlive]⟩
      rw [hlive, List.mem_append, List.mem_cons]
      obtain hmem | rfl | hmem := hmem
      · exact .inl hmem
      · rw [hready] at hotherReady
        contradiction
      · exact .inr (.inr hmem)
    · obtain ⟨rfl, rfl⟩ := hlast.unique hstores
      exact ⟨{ slot with holding := .held second }, by rw [hlive]; simp, rfl, rfl, fun _ => rfl⟩
  · rw [hlive, List.mem_append, List.mem_cons] at hmem
    obtain hmem | rfl | hmem := hmem
    · obtain ⟨origin, second, harrives⟩ := h.arrived other (hother (.inl hmem)) hotherReady
      exact ⟨origin, second, arrives_concat.mpr (.inl harrives)⟩
    · exact ⟨_, value, arrives_concat.mpr (.inr ⟨rfl, hstores⟩)⟩
    · obtain ⟨origin, second, harrives⟩ := h.arrived other (hother (.inr hmem)) hotherReady
      exact ⟨origin, second, arrives_concat.mpr (.inl harrives)⟩
  · obtain harrives | ⟨rfl, hlast⟩ := arrives_concat.mp harrives
    · obtain harrives' | ⟨-, hlast'⟩ := arrives_concat.mp harrives'
      · exact h.once _ _ _ _ _ harrives harrives'
      · exact absurd harrives (h.not_arrives hlast' _ _)
    · obtain harrives' | ⟨rfl, hlast'⟩ := arrives_concat.mp harrives'
      · exact absurd harrives' (h.not_arrives hlast _ _)
      · exact ⟨rfl, (hlast.unique hlast').2⟩

/-- Where no value is stored, the slots that are ready stay as they are. -/
theorem keep (h : Recorded start operations)
    (hnot : ∀ child value, ¬ Stores child value (start.live operations) last) :
    Recorded start (operations ++ [last]) := by
  have hlive : start.live (operations ++ [last]) = ((start.live operations).perform last).2 :=
    live_append start operations [last]
  have hkeeps := ((start.live operations).effect_perform last).keepsReady hnot
  have harrives : ∀ {child origin value}, start.Arrives (operations ++ [last]) child origin value ↔
      start.Arrives operations child origin value := by
    simp [arrives_concat, hnot]
  refine ⟨?_, fun child origin value hvalue => ?_, fun slot hslot hready => ?_,
    fun child origin other value second hvalue hsecond =>
      h.once _ _ _ _ _ (harrives.mp hvalue) (harrives.mp hsecond)⟩
  · rw [hlive]
    exact h.distinct_concat last
  · obtain ⟨slot, hslot, hchild, hready, hheld⟩ := h.held _ _ _ (harrives.mp hvalue)
    obtain ⟨new, hnew, hsame, hnewReady, hkept⟩ := hkeeps.ahead slot hslot hready
    rw [hlive]
    refine ⟨new, hnew, hsame.trans hchild, hnewReady, fun hclaimed => ?_⟩
    obtain ⟨hbefore, heq⟩ := hkept hclaimed
    rw [heq, hheld hbefore]
  · rw [hlive] at hslot
    obtain ⟨old, hold, hchild, holdReady⟩ := hkeeps.back slot hslot hready
    obtain ⟨origin, value, hvalue⟩ := h.arrived old hold holdReady
    exact ⟨origin, value, harrives.mpr (hchild ▸ hvalue)⟩

end Recorded

/-- After any list of operations, each slot that is ready has its value from one place. -/
theorem recorded_live (hstart : Initial start)
    (hheld : ∀ slot ∈ start.slots, slot.isReady = true → slot.value?.isSome = true)
    (operations : List (GroupOperation ν)) : Recorded start operations := by
  induction operations using List.reverseRecOn with
  | nil => exact .initial hstart hheld
  | append_singleton operations last ih =>
    by_cases hstores : ∃ child value, Stores child value (start.live operations) last
    · obtain ⟨child, value, hstores⟩ := hstores
      exact ih.store hstores
    · exact ih.keep fun child value h => hstores ⟨child, value, h⟩

/-! ## The order of the slots -/

/-- The slot of these keys was reserved at a place of a list of operations, and the group has had it
ever since. -/
def Stands (start : Group ν) (operations : List (GroupOperation ν)) (place : Nat)
    (name : String × String) : Prop :=
  start.Occurs operations place (Reserves name) ∧
    ∀ later, place < later → later ≤ operations.length →
      name ∈ (start.live (operations.take later)).names

section Stands

variable {place : Nat} {name : String × String}

theorem Stands.mem (h : start.Stands operations place name) :
    name ∈ (start.live operations).names := by
  have hlast := h.2 operations.length h.1.lt (Nat.le_refl _)
  rwa [List.take_length] at hlast

theorem stands_concat : start.Stands (operations ++ [last]) place name ↔
    name ∈ (start.live (operations ++ [last])).names ∧
      (start.Stands operations place name ∨
        place = operations.length ∧ Reserves name (start.live operations) last) := by
  constructor
  · intro h
    refine ⟨h.mem, ?_⟩
    obtain hbefore | hlast := occurs_concat.mp h.1
    · refine .inl ⟨hbefore, fun later hlt hle => ?_⟩
      have hmem := h.2 later hlt (by simpa using Nat.le_succ_of_le hle)
      rwa [List.take_append_of_le_length hle] at hmem
    · exact .inr hlast
  · rintro ⟨hmem, hbefore | ⟨rfl, hlast⟩⟩
    · refine ⟨hbefore.1.append [last], fun later hlt hle => ?_⟩
      obtain hle | rfl : later ≤ operations.length ∨ later = operations.length + 1 := by
        simpa [Nat.le_succ_iff] using hle
      · rw [List.take_append_of_le_length hle]
        exact hbefore.2 later hlt hle
      · rwa [List.take_of_length_le (by simp)]
    · refine ⟨occurs_concat.mpr (.inr ⟨rfl, hlast⟩), fun later hlt hle => ?_⟩
      obtain rfl : later = operations.length + 1 := by
        simp at hle
        omega
      rwa [List.take_of_length_le (by simp)]

end Stands

/-- The slots stand in the order in which they were reserved. -/
structure Orderly (start : Group ν) (operations : List (GroupOperation ν)) : Prop where
  /-- A slot that was not there from the start was reserved. -/
  stands : ∀ name ∈ (start.live operations).names,
    name ∈ start.names ∨ ∃ place, start.Stands operations place name
  /-- One that stands before another was reserved before it. -/
  sorted : (start.live operations).names.Pairwise fun one two =>
    ∀ m n, start.Stands operations m one → start.Stands operations n two → m < n

namespace Orderly

/-- No slot was reserved before the first operation. -/
theorem initial (hstart : Initial start) : Orderly start [] where
  stands := fun name hname => .inl hname
  sorted := by
    cases hstart with
    | normal parent capacity now => exact List.Pairwise.nil
    | delayed slot emitKey createdAt now => exact List.pairwise_singleton _ _

/-- A slot that is reserved is the last one, and was reserved last. -/
theorem reserve (h : Orderly start operations) {name : String × String}
    (hreserves : Reserves name (start.live operations) last) :
    Orderly start (operations ++ [last]) := by
  obtain ⟨hfresh, hnames⟩ := hreserves.names_eq
  have hlive : (start.live (operations ++ [last])).names =
      (start.live operations).names ++ [name] := by rw [live_append]; exact hnames
  -- a slot that the group had before was not reserved just now
  have hold : ∀ {one : String × String} {m : Nat}, one ∈ (start.live operations).names →
      start.Stands (operations ++ [last]) m one → start.Stands operations m one := by
    intro one m hone hstands
    obtain hbefore | ⟨-, hlast⟩ := (stands_concat.mp hstands).2
    · exact hbefore
    · exact absurd (List.mem_map_of_mem hone) hlast.names_eq.1
  have hnew : ∀ {m : Nat}, start.Stands (operations ++ [last]) m name → m = operations.length := by
    intro m hstands
    obtain hbefore | ⟨hplace, -⟩ := (stands_concat.mp hstands).2
    · exact absurd (List.mem_map_of_mem hbefore.mem) hfresh
    · exact hplace
  constructor
  · intro one hone
    have hmem := hone
    rw [hlive, List.mem_append, List.mem_singleton] at hone
    obtain hone | rfl := hone
    · obtain hstart | ⟨place, hplace⟩ := h.stands one hone
      · exact .inl hstart
      · exact .inr ⟨place, stands_concat.mpr ⟨hmem, .inl hplace⟩⟩
    · exact .inr ⟨_, stands_concat.mpr ⟨hmem, .inr ⟨rfl, hreserves⟩⟩⟩
  · rw [hlive, List.pairwise_append]
    refine ⟨?_, List.pairwise_singleton _ _, fun one hone two htwo m n hm hn => ?_⟩
    · exact h.sorted.imp_of_mem fun hone htwo hlt m n hm hn =>
        hlt m n (hold hone hm) (hold htwo hn)
    · rw [List.mem_singleton.mp htwo] at hn
      rw [hnew hn]
      exact (hold hone hm).1.lt

/-- Slots that are taken out leave the others in their order. -/
theorem shrink (h : Orderly start operations)
    (hnot : ∀ name, ¬ Reserves name (start.live operations) last) :
    Orderly start (operations ++ [last]) := by
  have hsublist :
      (start.live (operations ++ [last])).names.Sublist (start.live operations).names := by
    rw [live_append]
    exact (shrinks_perform hnot).names
  have hold : ∀ {one : String × String} {m : Nat}, start.Stands (operations ++ [last]) m one →
      start.Stands operations m one := by
    intro one m hstands
    obtain hbefore | ⟨-, hlast⟩ := (stands_concat.mp hstands).2
    · exact hbefore
    · exact absurd hlast (hnot one)
  constructor
  · intro name hname
    obtain hstart | ⟨place, hplace⟩ := h.stands name (hsublist.mem hname)
    · exact .inl hstart
    · exact .inr ⟨place, stands_concat.mpr ⟨hname, .inl hplace⟩⟩
  · exact (h.sorted.sublist hsublist).imp fun hlt m n hm hn => hlt m n (hold hm) (hold hn)

end Orderly

/-- After any list of operations, the slots stand in the order of their reservation. -/
theorem orderly_live (hstart : Initial start) (operations : List (GroupOperation ν)) :
    Orderly start operations := by
  induction operations using List.reverseRecOn with
  | nil => exact .initial hstart
  | append_singleton operations last ih =>
    by_cases hreserves : ∃ name, Reserves name (start.live operations) last
    · obtain ⟨name, hreserves⟩ := hreserves
      exact ih.reserve hreserves
    · exact ih.shrink fun name h => hreserves ⟨name, h⟩

/-! ## Claims -/

theorem coherent_live (h : group.Coherent) (operations : List (GroupOperation ν))
    (hadmits : group.admitsAll operations = true) : (group.live operations).Coherent := by
  induction operations generalizing group with
  | nil => exact h
  | cons operation rest ih =>
    rw [admitsAll, Bool.and_eq_true] at hadmits
    exact ih (h.effect (group.effect_perform operation) hadmits.1) hadmits.2

theorem Initial.coherent (hstart : Initial start)
    (hheld : ∀ slot ∈ start.slots, slot.isReady = true → slot.value?.isSome = true) :
    start.Coherent := by
  cases hstart with
  | normal parent capacity now => exact .normal parent capacity now
  | delayed slot emitKey createdAt now =>
    exact .delayed (hheld slot List.mem_cons_self) emitKey createdAt now

theorem HandsOver.claim?_eq {values : List ν} (h : HandsOver values group operation) :
    ∃ changed, group.claim? = some (values, changed) ∧ (group.perform operation).2 = changed := by
  obtain ⟨rfl, hreply⟩ := h
  cases hclaim : group.claim? with
  | none => simp [perform, hclaim] at hreply
  | some pair =>
    obtain ⟨granted, changed⟩ := pair
    refine ⟨changed, ?_, by simp [perform, hclaim]⟩
    rw [show granted = values by simpa [perform, hclaim] using hreply]

/-- The part of a list of operations before a place, and the operation there, may be carried out. -/
theorem admitsAll_take (hadmits : start.admitsAll operations = true) (place : Nat) :
    start.admitsAll (operations.take place) = true := by
  rw [← List.take_append_drop place operations, admitsAll_append, Bool.and_eq_true] at hadmits
  exact hadmits.1

/-- Once values were handed over, the emission stays claimed. -/
theorem claimed_of_handsOver (hstart : Initial start)
    (hadmits : start.admitsAll operations = true) {m n : Nat} {values : List ν}
    (hm : start.Occurs operations m (HandsOver values)) (hlt : m < n) :
    (start.live (operations.take n)).claimed = true := by
  obtain ⟨operation, hoperation, hhands⟩ := hm
  obtain ⟨changed, hclaim, hperform⟩ := hhands.claim?_eq
  have hnext : start.live (operations.take (m + 1)) = changed := by
    rw [List.take_add_one, hoperation, live_append]
    exact hperform
  have hsplit : operations.take n =
      operations.take (m + 1) ++ (operations.take n).drop (m + 1) := by
    conv_lhs => rw [← List.take_append_drop (m + 1) (operations.take n), List.take_take,
      Nat.min_eq_left hlt]
  have hrest := admitsAll_take hadmits n
  rw [hsplit, admitsAll_append, Bool.and_eq_true] at hrest
  have hstaged := (hstart.staged.live _ hrest.1).1
  have hclaimed : changed.claimed = true := by rw [(claim?_eq_some hclaim).2.2.2]
  rw [hsplit, live_append]
  exact ((hstaged.live _ hrest.2).2.claimed (by rw [hnext, hclaimed])).1

/-- What is handed over at a place of a list of operations: the values of the slots of the group. -/
structure Yields (start : Group ν) (operations : List (GroupOperation ν)) (place : Nat)
    (values : List ν) : Prop where
  /-- There is something to emit. -/
  nonempty : values ≠ []
  /-- There is one value for each slot, which arrived for that slot before, from one place, and
  nothing else arrives for the slot at any time. -/
  own : List.Forall₂ (fun slot value => ∃ origin, start.Arrives operations slot.child origin value ∧
      (∀ n, origin = some n → n < place) ∧
      ∀ other second, start.Arrives operations slot.child other second →
        other = origin ∧ second = value)
    (start.live (operations.take place)).slots values
  /-- The slots stand in the order of their reservation. -/
  order : Orderly start (operations.take place)

theorem yields_of_handsOver (hstart : Initial start)
    (hheld : ∀ slot ∈ start.slots, slot.isReady = true → slot.value?.isSome = true)
    (hadmits : start.admitsAll operations = true) {place : Nat} {values : List ν}
    (h : start.Occurs operations place (HandsOver values)) :
    Yields start operations place values := by
  obtain ⟨operation, -, hhands⟩ := h
  obtain ⟨changed, hclaim, -⟩ := hhands.claim?_eq
  obtain ⟨hstage, hunclaimed, rfl, -⟩ := claim?_eq_some hclaim
  have hcoherent := coherent_live (hstart.coherent hheld) _ (admitsAll_take hadmits place)
  have hbefore := recorded_live hstart hheld (operations.take place)
  have hall := recorded_live hstart hheld operations
  obtain ⟨hslots, hready⟩ := hcoherent.full (.inl hstage)
  have hown : List.Forall₂ (fun slot value => ∃ origin,
        start.Arrives operations slot.child origin value ∧ (∀ n, origin = some n → n < place) ∧
        ∀ other second, start.Arrives operations slot.child other second →
          other = origin ∧ second = value)
      (start.live (operations.take place)).slots
      ((start.live (operations.take place)).slots.filterMap Slot.value?) := by
    refine Slot.forall₂_filterMap_value fun slot hslot => ?_
    -- the slot is ready, so its value has arrived, and it is still there
    obtain ⟨origin, value, harrives⟩ := hbefore.arrived slot hslot (hready slot hslot)
    obtain ⟨other, hother, hchild, -, hvalue⟩ := hbefore.held _ _ _ harrives
    obtain rfl := child_inj hbefore.distinct hother hslot hchild
    have hlater := harrives.append (operations.drop place)
    rw [List.take_append_drop] at hlater
    refine ⟨value, hvalue hunclaimed, origin, hlater, fun n hn => ?_,
      fun _ _ hsecond => hall.once _ _ _ _ _ hsecond hlater⟩
    exact Nat.lt_of_lt_of_le (harrives.lt hn) (List.length_take_le _ _)
  refine ⟨fun hnil => hslots ?_, hown, orderly_live hstart _⟩
  rw [hnil] at hown
  exact List.forall₂_nil_right_iff.mp hown

/-- The values of a group are handed over at most once, and then all of them: one for each slot, in
the order of reservation, each of them the only one that was stored in its slot. This holds for a
group that is normal, or delayed with a slot whose value was not taken, after any list of
operations in which only the emission of a ready group is finished.

The order in which values for different full keys are stored one after the other makes no
difference to what their callers are told, nor to the group, nor to what is told to anybody
afterwards. -/
theorem every_value_handed_over (hstart : Initial start)
    (hheld : ∀ slot ∈ start.slots, slot.isReady = true → slot.value?.isSome = true)
    (operations : List (GroupOperation ν)) (hadmits : start.admitsAll operations = true) :
    (∀ m n one two, start.Occurs operations m (HandsOver one) →
      start.Occurs operations n (HandsOver two) → m = n) ∧
    (∀ place values, start.Occurs operations place (HandsOver values) →
      Yields start operations place values) ∧
    ∀ (before after : List (GroupOperation ν)) (values others : List (String × ν)),
      (values.map Prod.fst).Nodup → values.Perm others →
      (values.zip ((start.live before).replies (puts values))).Perm
          (others.zip ((start.live before).replies (puts others))) ∧
        start.live (before ++ puts values ++ after) = start.live (before ++ puts others ++ after) ∧
        (start.live (before ++ puts values)).replies after =
          (start.live (before ++ puts others)).replies after := by
  have hnot : ∀ {m n one two}, start.Occurs operations m (HandsOver one) →
      start.Occurs operations n (HandsOver two) → ¬ m < n := by
    intro m n one two hm hn hlt
    obtain ⟨operation, -, hhands⟩ := hn
    obtain ⟨changed, hclaim, -⟩ := hhands.claim?_eq
    have hclaimed := claimed_of_handsOver hstart hadmits hm hlt
    rw [(claim?_eq_some hclaim).2.1] at hclaimed
    contradiction
  refine ⟨fun m n one two hm hn => ?_,
    fun place values h => yields_of_handsOver hstart hheld hadmits h,
    fun before after values others hkeys hperm => ?_⟩
  · exact Nat.le_antisymm (Nat.not_lt.mp (hnot hn hm)) (Nat.not_lt.mp (hnot hm hn))
  · obtain ⟨htold, hlive⟩ := live_perm hperm hkeys (start.live before)
    have hsame : start.live (before ++ puts values) = start.live (before ++ puts others) := by
      rw [live_append, hlive, live_append]
    exact ⟨htold, by rw [live_append, hsame, ← live_append], by rw [hsame]⟩

/-- The values of the pair are handed over in the order of its reservations, though they arrived in
the other one: the first came from the fifth operation, and only from there. Had they arrived the
other way round, the group would be the same. -/
theorem handed_over_of_pair :
    (normal "7" 2 0).admitsAll lifeOfPair = true ∧
      (normal "7" 2 0).Occurs lifeOfPair 6 (HandsOver [1, 2]) ∧
      (∀ origin value, (normal "7" 2 0).Arrives lifeOfPair "a" origin value →
        origin = some 4 ∧ value = 1) ∧
      (normal "7" 2 0).live ([.reserve 0 "a" "7:a", .reserve 5 "b" "7:b"] ++
          puts [("7:b", 2), ("7:a", 1)] ++ [.markReady, .claim]) =
        (normal "7" 2 0).live ([.reserve 0 "a" "7:a", .reserve 5 "b" "7:b"] ++
          puts [("7:a", 1), ("7:b", 2)] ++ [.markReady, .claim]) := by
  have hadmits : (normal "7" 2 0).admitsAll lifeOfPair = true := by decide
  have hclaim : (normal "7" 2 0).Occurs lifeOfPair 6 (HandsOver [1, 2]) := ⟨.claim, rfl, rfl, rfl⟩
  have harrives : (normal "7" 2 0).Arrives lifeOfPair "a" (some 4) 1 :=
    .stored ⟨.put "7:a" 1, rfl, "7:a", rfl, rfl, rfl⟩
  obtain ⟨-, hyields, hreordered⟩ :=
    every_value_handed_over (.normal "7" 2 0) (by simp [normal]) lifeOfPair hadmits
  refine ⟨hadmits, hclaim, fun origin value h => ?_,
    (hreordered _ _ _ _ (by decide) (.swap _ _ _)).2.1⟩
  obtain ⟨first, -, ⟨place, -, -, honly⟩, -⟩ :=
    List.forall₂_cons_left_iff.mp (hyields 6 _ hclaim).own
  obtain ⟨rfl, rfl⟩ := honly origin value h
  obtain ⟨hplace, hvalue⟩ := honly _ _ harrives
  exact ⟨hplace.symm, hvalue.symm⟩

end Group

end BatchedCommit
