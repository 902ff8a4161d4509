import BatchedCommit.Proofs.Deposits
import BatchedCommit.Proofs.Outcomes

/-!
# BatchedCommit.Proofs.Delivery

No value is lost, duplicated or reordered (`Committer.values_delivered`). What the emitter is
given are the values of the slots that were in the group when its emission was claimed, one for
each of them, in the order of reservation; and whoever stored a value learns whether the emitter
was given it.
-/

namespace BatchedCommit

variable {ν ε : Type}

/-! ## Numbers and keys of a group -/

/-- Valid settings leave room for one slot at least. -/
theorem Settings.slotCapacity_pos {settings : Settings} (h : settings.validate = .ok ()) :
    1 ≤ settings.slotCapacity.toNat := by
  have hne : settings.slotCapacity ≠ 0 := by
    intro hzero
    have hfound : Setting.all.find? (settings.get · == 0) = some .slotCapacity := by
      simp [Setting.all, get, hzero]
    rw [validate, hfound] at h
    contradiction
  have hpos : settings.slotCapacity.toNat ≠ 0 := fun hzero => hne (UInt64.toNat_inj.mp hzero)
  omega

namespace Group

variable {scheme : KeyScheme} {group changed : Group ν} {capacity : Nat}

/-- A group is for one slot, or for as many as the settings say; and a normal group is named by a
parent key. -/
structure Founded (scheme : KeyScheme) (capacity : Nat) (group : Group ν) : Prop where
  capacity : group.capacity ≤ max capacity 1
  key : group.kind = .normal → ∃ index, group.key = scheme.parentKey index

theorem Newborn.founded (h : Newborn scheme capacity group) : Founded scheme capacity group := by
  cases h with
  | normal index now child h =>
    have hhead : SameHead (Group.normal (scheme.parentKey index) capacity now) group := .reserve h
    exact ⟨by rw [hhead.capacity]; exact Nat.le_max_left _ _, fun _ => ⟨index, hhead.key⟩⟩
  | delayed slot emitKey createdAt now hready hemit => exact ⟨Nat.le_max_right _ _, nofun⟩

theorem Next.founded (h : Next scheme group changed) (hgroup : Founded scheme capacity group) :
    Founded scheme capacity changed := by
  have hhead := h.sameHead
  refine ⟨by rw [hhead.capacity]; exact hgroup.capacity, fun hkind => ?_⟩
  rw [hhead.key]
  exact hgroup.key (by rw [← hhead.kind, hkind])

/-- A delayed group has no slot but the one that it is emitted under. -/
theorem Named.keys_of_delayed (h : Named scheme group) (hkind : group.kind = .delayed)
    (hdelayed : scheme.delayed = .prefixed "") (hslots : group.slots ≠ []) :
    group.slots.map Slot.fullKey = [group.emitKey] := by
  have hkey : group.key = group.emitKey := by
    have hderived := h.derived hkind
    simpa [KeyScheme.delayedEmitKey?, hdelayed, DelayedNaming.prefixed] using hderived
  have hsingle : group.slots.length ≤ 1 := by
    simpa [names] using h.single hkind
  obtain ⟨slot, rest, hcons⟩ := List.exists_cons_of_ne_nil hslots
  have hrest : rest = [] := by
    rw [hcons, List.length_cons] at hsingle
    exact List.length_eq_zero_iff.mp (by omega)
  have hown : slot.fullKey = group.key :=
    h.own hkind slot.names (List.mem_map_of_mem (by simp [hcons]))
  rw [hcons, hrest, List.map_singleton, hown, hkey]

/-- The slots of a normal group are named by the key that it is emitted under. -/
theorem Named.fullKey_of_normal (h : Named scheme group) (hkind : group.kind = .normal)
    {slot : Slot ν} (hslot : slot ∈ group.slots) :
    slot.fullKey = scheme.fullKey group.emitKey slot.child := by
  rw [h.parent hkind]
  exact h.children hkind slot.names (List.mem_map_of_mem hslot)

end Group

namespace Committer

/-! ## Handing a value to the emitter -/

/-- The value at place `i` of emission `m` is the one that caller `n` has stored: the caller
waits for the group that was emitted, and stored it in the slot at that place. -/
def Hands (committer : Committer ν ε) (m i n : Nat) : Prop :=
  ∃ emission caller, committer.emissions[m]? = some emission ∧
    committer.callers[n]? = some caller ∧ caller.group = emission.group ∧
    (committer.registry.keysOf emission.group)[i]? = some caller.fullKey

section Hands

variable {committer : Committer ν ε} {deposits : List ν} {m k i j n : Nat}
  {emission : Emission ν} {caller : Caller ν}

/-- No two callers have stored a value in the same slot. -/
theorem Deposited.caller_inj (h : Deposited committer deposits) {one two : Caller ν}
    (hn : committer.callers[n]? = some one) (hk : committer.callers[k]? = some two)
    (hseat : one.seat = two.seat) : n = k := by
  have hone : committer.seats[n]? = some one.seat := getElem?_seats.mpr ⟨one, hn, rfl⟩
  have htwo : committer.seats[k]? = some one.seat := getElem?_seats.mpr ⟨two, hk, hseat.symm⟩
  exact (List.getElem?_inj (List.getElem?_eq_some_iff.mp hone).1 h.own).mp (by rw [hone, htwo])

/-- At every place of an emission there is the value of the caller that stored it in the slot at
that place. -/
theorem exists_hands (h : Deposited committer deposits)
    (hemission : committer.emissions[m]? = some emission) {key : String}
    (hkey : (committer.registry.keysOf emission.group)[i]? = some key) :
    ∃ n caller value, Hands committer m i n ∧ committer.callers[n]? = some caller ∧
      caller.fullKey = key ∧ deposits[n]? = some value ∧ emission.values[i]? = some value := by
  have htaken := h.taken emission.group emission.values (.emitted hemission rfl rfl)
  obtain ⟨hlt, hget⟩ := List.getElem?_eq_some_iff.mp hkey
  have hvalue : i < emission.values.length := by rw [← htaken.length_eq]; exact hlt
  have hmem := (List.forall₂_iff_get.mp htaken).2 i hlt hvalue
  obtain ⟨n, hn⟩ := List.mem_iff_getElem?.mp hmem
  obtain ⟨hseat, hdeposit⟩ := List.getElem?_zip_eq_some.mp hn
  obtain ⟨caller, hcaller, heq⟩ := getElem?_seats.mp hseat
  have hown : caller.fullKey = key := (congrArg Prod.snd heq).trans hget
  exact ⟨n, caller, _, ⟨emission, caller, hemission, hcaller, congrArg Prod.fst heq,
    by rw [hkey, hown]⟩, hcaller, hown, hdeposit, List.getElem?_eq_getElem hvalue⟩

/-- The value at a place is that of one caller only. -/
theorem Hands.caller_inj (h : Deposited committer deposits) (hone : Hands committer m i n)
    (htwo : Hands committer m i k) : n = k := by
  obtain ⟨emission, one, hemission, hn, hgroup, hkey⟩ := hone
  obtain ⟨emission', two, hemission', hk, hgroup', hkey'⟩ := htwo
  obtain rfl := Option.some.inj (hemission.symm.trans hemission')
  have hsame : one.seat = two.seat := by
    rw [Caller.seat, Caller.seat, hgroup, hgroup', Option.some.inj (hkey.symm.trans hkey')]
  exact h.caller_inj hn hk hsame

/-- A value is given to the emitter once at most. -/
theorem Hands.place_inj (ha : Accounted committer)
    (hnodup : ∀ id, (committer.registry.keysOf id).Nodup) (hone : Hands committer m i n)
    (htwo : Hands committer k j n) : m = k ∧ i = j := by
  obtain ⟨emission, one, hm, hn, hgroup, hkey⟩ := hone
  obtain ⟨emission', two, hk, hn', hgroup', hkey'⟩ := htwo
  obtain rfl := Option.some.inj (hn.symm.trans hn')
  have hsame : emission.group = emission'.group := hgroup.symm.trans hgroup'
  obtain rfl := ha.once m k emission emission' hm hk hsame
  obtain rfl := Option.some.inj (hm.symm.trans hk)
  have hlt := (List.getElem?_eq_some_iff.mp hkey).1
  exact ⟨rfl, (List.getElem?_inj hlt (hnodup emission.group)).mp (by rw [hkey, hkey'])⟩

/-- If a group was emitted, then so was the value of every caller that waits for it. -/
theorem hands_of_emission (hs : Staffed committer)
    (hemission : committer.emissions[m]? = some emission)
    (hcaller : committer.callers[n]? = some caller) (hgroup : emission.group = caller.group) :
    ∃ i, Hands committer m i n := by
  have hown := Array.getElem?_eq_getElem (hs.known n caller hcaller)
  obtain ⟨slot, hslot, hkey, -⟩ := (hs.attended _ _ hown).seated n caller hcaller rfl
  have hmem : caller.fullKey ∈ committer.registry.keysOf emission.group := by
    rw [hgroup, Registry.keysOf_eq hown]
    exact List.mem_map.mpr ⟨slot, hslot, hkey⟩
  obtain ⟨i, hi⟩ := List.mem_iff_getElem?.mp hmem
  exact ⟨i, emission, caller, hemission, hcaller, hgroup.symm, hi⟩

/-- If a group was not emitted, then no value was that a caller of it has stored. -/
theorem not_hands_of_unemitted (hcaller : committer.callers[n]? = some caller)
    (hnone : Unemitted committer.emissions caller.group) (m i : Nat) :
    ¬ Hands committer m i n := by
  rintro ⟨emission, other, hemission, hn, hgroup, -⟩
  obtain rfl := Option.some.inj (hcaller.symm.trans hn)
  exact hnone m emission hemission hgroup.symm

end Hands

/-! ## A second value for a slot -/

/-- A slot that has its value keeps it when somebody stores another one, anywhere. -/
theorem slot_of_store (committer : Committer ν ε) (fullKey : String) (value : ν) {id i : Nat}
    {group : Group ν} {slot : Slot ν} (hgroup : committer.registry.groups[id]? = some group)
    (hslot : group.slots[i]? = some slot) (hready : slot.isReady = true) :
    ∃ changed, (committer.step (.store fullKey value)).registry.groups[id]? = some changed ∧
      changed.slots[i]? = some slot := by
  have hstep : (committer.step (.store fullKey value)).registry.groups =
      (committer.registry.store fullKey value).registry.groups := by
    unfold step store
    dsimp only
    split <;> rfl
  rw [hstep]
  obtain ⟨failure, heq⟩ | ⟨own, found, changed, -, -, hfound, hput, heq⟩ :=
    committer.registry.store_cases fullKey value
  · rw [heq]
    exact ⟨group, hgroup, hslot⟩
  · rw [heq]
    by_cases hid : own = id
    · subst hid
      obtain rfl := Option.some.inj (hgroup.symm.trans hfound)
      refine ⟨changed.markReady, Array.getElem?_setIfInBounds_self_of_lt
        (Array.getElem?_eq_some_iff.mp hgroup).1, ?_⟩
      obtain ⟨-, before, awaiting, after, hslots, -, -, hawaiting, rfl⟩ := Group.put_eq_ok hput
      rw [Group.markReady_slots]
      rw [hslots] at hslot
      -- the slot that the other value went into awaited one
      have hne : i ≠ before.length := by
        rintro rfl
        rw [List.getElem?_append_right (Nat.le_refl _), Nat.sub_self] at hslot
        obtain rfl : awaiting = slot := by simpa using hslot
        rw [hready] at hawaiting
        contradiction
      rw [← hslot]
      grind
    · exact ⟨group, by rw [← hgroup]; exact Array.getElem?_setIfInBounds_ne hid, hslot⟩

/-- Whoever stores a value in a slot that has one is refused, and nothing happens. -/
theorem store_refused {committer : Committer ν ε} (hs : Staffed committer)
    (hnodup : ∀ (id : Nat) (group : Group ν), committer.registry.groups[id]? = some group →
      (group.slots.map Slot.fullKey).Nodup)
    {n : Nat} {caller : Caller ν} (hcaller : committer.callers[n]? = some caller)
    (hfind : committer.registry.find caller.fullKey = .ok caller.group) (value : ν) :
    ∃ failure, committer.store caller.fullKey value = (.error failure, committer) := by
  obtain ⟨failure, heq⟩ | ⟨own, group, changed, -, hown, hgroup, hput, -⟩ :=
    committer.registry.store_cases caller.fullKey value
  · refine ⟨failure, ?_⟩
    rw [store, heq]
    simp [absorb]
  · obtain rfl := Except.ok.inj (hfind.symm.trans hown)
    have hmem : (caller.group, caller.fullKey) ∈ committer.seats :=
      List.mem_iff_getElem?.mpr ⟨n, getElem?_seats.mpr ⟨caller, hcaller, rfl⟩⟩
    exact absurd hmem (seat_notMem_of_put hs hgroup (hnodup _ group hgroup) hput)

/-! ## What the emitter is given -/

section Runs

variable {label : String} {settings : Settings} {scheme : KeyScheme}
  {slotBytes : Nat} {unstartable : Option (Sweeper × String)} {start : Committer ν ε}

theorem founded_run (hstart : (launch label settings scheme slotBytes unstartable).1 = .ok start)
    (actions : List (Action ν ε)) {id : Nat} {group : Group ν}
    (hgroup : (start.run actions).registry.groups[id]? = some group) :
    group.Founded scheme settings.slotCapacity.toNat :=
  group_invariant hstart (fun _ hborn => hborn.founded) (fun _ _ hnext => hnext.founded) actions
    id group hgroup

/-- Every emission was claimed by a caller that found the group ready, and is made under the emit
key of the group. -/
theorem claimed_before_emission
    (hstart : (launch label settings scheme slotBytes unstartable).1 = .ok start)
    (actions : List (Action ν ε)) {m : Nat} {emission : Emission ν}
    (hemission : (start.run actions).emissions[m]? = some emission) :
    ∃ (before after : List (Action ν ε)) (n : Nat) (group : Group ν),
      actions = before ++ .look n :: after ∧
      (start.run before).registry.groups[emission.group]? = some group ∧
      group.stage = .ready ∧ group.claimed = false ∧
      (start.run (before ++ [.look n])).phase? n = some (.claimed emission.values) ∧
      emission.emitKey = group.emitKey ∧
      (start.run actions).registry.keysOf emission.group = group.slots.map Slot.fullKey := by
  obtain ⟨before, after, n, group, changed, rfl, hgroup, hclaim, hphase, hkeys⟩ :=
    traced_run hstart actions (.emitted hemission rfl rfl)
  obtain ⟨hstage, hunclaimed, -, -⟩ := Group.claim?_eq_some hclaim
  obtain ⟨last, hlast, hhead⟩ := head_run hstart before (.look n :: after) hgroup
  obtain ⟨found, hfound, -, hkey⟩ := (accounted_run hstart _).emission m emission hemission
  obtain rfl := Option.some.inj (hlast.symm.trans hfound)
  exact ⟨before, after, n, group, rfl, hgroup, hstage, hunclaimed, hphase,
    by rw [hkey, hhead.emitKey], by rw [hkeys, Registry.keysOf_eq hgroup]⟩

/-- What the emitter was given in an emission of a run: the values that a caller claimed after some
of the actions, when it looked at a group. -/
structure Gathered (start : Committer ν ε) (actions before : List (Action ν ε)) (m : Nat)
    (emission : Emission ν) (group : Group ν) : Prop where
  /-- The caller looked at the group, and claimed these values. -/
  claimed : ∃ n after, actions = before ++ .look n :: after ∧
    (start.run (before ++ [.look n])).phase? n = some (.claimed emission.values)
  found : (start.run before).registry.groups[emission.group]? = some group
  ready : group.stage = .ready
  unclaimed : group.claimed = false
  nonempty : emission.values ≠ []
  bounded : emission.values.length ≤ start.registry.capacity
  /-- There is one value for each slot of the group, -/
  count : emission.values.length = group.slots.length
  /-- in the order of the slots, and it is the one that a caller stored in the slot. -/
  stored : ∀ (i : Nat) (slot : Slot ν), group.slots[i]? = some slot →
    ∃ (n : Nat) (caller : Caller ν) (value : ν), Hands (start.run actions) m i n ∧
      (start.run actions).callers[n]? = some caller ∧ caller.fullKey = slot.fullKey ∧
      (start.stored actions)[n]? = some value ∧ emission.values[i]? = some value
  /-- The slots of a normal group are those that its history left in it, in the order of
  reservation, and it is emitted under its parent key. -/
  normal : group.kind = .normal →
    group.slots.map Slot.fullKey = start.kept emission.group before [] ∧
      (∃ index, emission.emitKey = start.registry.scheme.parentKey index) ∧
      ∀ slot ∈ group.slots, slot.fullKey =
        start.registry.scheme.fullKey emission.emitKey slot.child
  /-- A delayed group has one slot, and is emitted under the full key of that. -/
  delayed : group.kind = .delayed → group.slots.map Slot.fullKey = [emission.emitKey]

/-- The value of a caller is in an emission that the emitter answered like this. -/
def Delivered (committer : Committer ν ε) (n : Nat) (answer : Except String Unit) : Prop :=
  ∃ (m i : Nat) (emission : Emission ν), Hands committer m i n ∧
    committer.emissions[m]? = some emission ∧ emission.answer = some answer

/-- Every emission of a run was gathered at once. -/
theorem exists_gathered
    (hstart : (launch label settings scheme slotBytes unstartable).1 = .ok start)
    (hdelayed : scheme.delayed = .prefixed "") (actions : List (Action ν ε)) {m : Nat}
    {emission : Emission ν} (hemission : (start.run actions).emissions[m]? = some emission) :
    ∃ before group, Gathered start actions before m emission group := by
  have hd : Deposited (start.run actions) (start.stored actions) := deposited_run hstart actions
  obtain ⟨hvalid, hregistry, -⟩ := launch_eq_ok hstart
  obtain ⟨before, after, n, group, hactions, hgroup, hstage, hunclaimed, hphase, hkey, hkeys⟩ :=
    claimed_before_emission hstart actions hemission
  have hs : Staffed (start.run before) := (Staffed.launch hstart).run before
  have hcoherent : group.Coherent := (hs.attended emission.group group hgroup).coherent
  have hnamed : group.Named scheme := named_run hstart before hgroup
  have hfounded := founded_run hstart before hgroup
  have hslots : group.slots ≠ [] := (hcoherent.full (.inl hstage)).1
  have hcount : emission.values.length = group.slots.length := by
    have htaken := hd.taken emission.group emission.values (.emitted hemission rfl rfl)
    rw [← htaken.length_eq, hkeys, List.length_map]
  refine ⟨before, group, {
    claimed := ⟨n, after, hactions, hphase⟩
    found := hgroup
    ready := hstage
    unclaimed := hunclaimed
    nonempty := ?_
    bounded := ?_
    count := hcount
    stored := fun i slot hslot => ?_
    normal := fun hkind => ⟨?_, ?_, fun slot hslot => ?_⟩
    delayed := fun hkind => ?_ }⟩
  · intro hempty
    rw [hempty, List.length_nil] at hcount
    exact hslots (List.length_eq_zero_iff.mp hcount.symm)
  · have hpos := Settings.slotCapacity_pos hvalid
    have hbounded := hcoherent.bounded
    have hcapacity := hfounded.capacity
    rw [hcount, hregistry]
    simp only [Registry.capacity, Registry.empty]
    omega
  · exact exists_hands hd hemission (by rw [hkeys, List.getElem?_map, hslot]; rfl)
  · rw [← Registry.keysOf_eq hgroup]
    refine keys_of_normal hstart (KeyScheme.derivable_of_prefixed hdelayed) before
      emission.group fun other hother => ?_
    rw [← Option.some.inj (hgroup.symm.trans hother)]
    exact hkind
  · obtain ⟨index, hindex⟩ := hfounded.key hkind
    exact ⟨index, by rw [hkey, hnamed.parent hkind, hindex, hregistry]; rfl⟩
  · rw [hkey, hregistry]
    exact hnamed.fullKey_of_normal hkind hslot
  · rw [hkey]
    exact hnamed.keys_of_delayed hkind hdelayed hslots

/-- Whoever returns knows whether the emitter was given its value. -/
theorem delivered_of_returned
    (hstart : (launch label settings scheme slotBytes unstartable).1 = .ok start)
    (actions : List (Action ν ε)) {n : Nat} {caller : Caller ν} {verdict : Verdict}
    (hcaller : (start.run actions).callers[n]? = some caller)
    (hphase : caller.phase = .returned verdict) :
    (verdict = .ok () ∧ Delivered (start.run actions) n (.ok ())) ∨
    (∃ key cause, verdict = .error (.emitFailed key cause) ∧
      Delivered (start.run actions) n (.error cause)) ∨
    (verdict = .error .closed ∨ (∃ key, verdict = .error (.aborted key)) ∨
      ∃ key, verdict = .error (.emitterNotSet key)) ∧
      ∀ m i : Nat, ¬ Hands (start.run actions) m i n := by
  have hs : Staffed (start.run actions) := (Staffed.launch hstart).run actions
  have ha : Accounted (start.run actions) := accounted_run hstart actions
  have hgroup := Array.getElem?_eq_getElem (hs.known n caller hcaller)
  have houtcome := (hs.attended _ _ hgroup).fits n caller hcaller rfl
  rw [hphase] at houtcome
  obtain ⟨m, emission, answer, hemission, hid, hanswer, hverdict⟩ | ⟨hnone, hverdict⟩ :=
    outcome_cases hs ha hgroup (wellEnded_run hstart actions hgroup) houtcome
  · obtain ⟨i, hhands⟩ := hands_of_emission hs hemission hcaller hid
    cases answer with
    | ok _ => exact .inl ⟨hverdict, m, i, emission, hhands, hemission, hanswer⟩
    | error cause =>
      exact .inr (.inl ⟨_, cause, hverdict, m, i, emission, hhands, hemission, hanswer⟩)
  · exact .inr (.inr ⟨hverdict, not_hands_of_unemitted hcaller hnone⟩)

/-- In every reachable state, whatever the order of the steps was:

* the emitter was given, in each emission, the values of the slots that were in a group when a
  caller claimed it, in the order of reservation (`Gathered`);
* at each place of an emission there is the value of one caller, and the value of a caller is at
  one place of one emission at most;
* the value of a caller that returned is in an emission that succeeded, if it returned a success,
  or in one that failed, if it returned that, or in none, if it returned that its group was
  aborted, that the committer was closed, or that there was no emitter;
* no two callers have stored a value in the same slot; a slot that has its value keeps it when
  another one is stored, and whoever stores another value in the slot of a caller is refused. -/
theorem values_delivered
    (hstart : (launch label settings scheme slotBytes unstartable).1 = .ok start)
    (hdelayed : scheme.delayed = .prefixed "") (actions : List (Action ν ε)) :
    (∀ (m : Nat) (emission : Emission ν), (start.run actions).emissions[m]? = some emission →
      ∃ before group, Gathered start actions before m emission group) ∧
    (∀ m i n k : Nat, Hands (start.run actions) m i n → Hands (start.run actions) m i k →
      n = k) ∧
    (∀ m i k j n : Nat, Hands (start.run actions) m i n → Hands (start.run actions) k j n →
      m = k ∧ i = j) ∧
    (∀ (n : Nat) (caller : Caller ν) (verdict : Verdict),
      (start.run actions).callers[n]? = some caller → caller.phase = .returned verdict →
      (verdict = .ok () ∧ Delivered (start.run actions) n (.ok ())) ∨
      (∃ key cause, verdict = .error (.emitFailed key cause) ∧
        Delivered (start.run actions) n (.error cause)) ∨
      (verdict = .error .closed ∨ (∃ key, verdict = .error (.aborted key)) ∨
        ∃ key, verdict = .error (.emitterNotSet key)) ∧
        ∀ m i : Nat, ¬ Hands (start.run actions) m i n) ∧
    (∀ (m n : Nat) (one two : Caller ν), (start.run actions).callers[m]? = some one →
      (start.run actions).callers[n]? = some two → one.group = two.group →
      one.fullKey = two.fullKey → m = n) ∧
    (∀ (fullKey : String) (value : ν) (id i : Nat) (group : Group ν) (slot : Slot ν),
      (start.run actions).registry.groups[id]? = some group → group.slots[i]? = some slot →
      slot.isReady = true →
      ∃ changed, (start.run (actions ++ [.store fullKey value])).registry.groups[id]? =
        some changed ∧ changed.slots[i]? = some slot) ∧
    ∀ (n : Nat) (caller : Caller ν) (value : ν), (start.run actions).callers[n]? = some caller →
      (start.run actions).registry.find caller.fullKey = .ok caller.group →
      ∃ failure, (start.run actions).store caller.fullKey value =
        (.error failure, start.run actions) := by
  have hs : Staffed (start.run actions) := (Staffed.launch hstart).run actions
  have ha : Accounted (start.run actions) := accounted_run hstart actions
  have hd : Deposited (start.run actions) (start.stored actions) := deposited_run hstart actions
  refine ⟨fun m emission hemission => exists_gathered hstart hdelayed actions hemission,
    fun m i n k hone htwo => hone.caller_inj hd htwo,
    fun m i k j n hone htwo => hone.place_inj ha (nodup_keysOf_run hstart actions) htwo,
    fun n caller verdict hcaller hphase => delivered_of_returned hstart actions hcaller hphase,
    fun m n one two hone htwo hgroup hkey => ?_,
    fun fullKey value id i group slot hgroup hslot hready => ?_,
    fun n caller value hcaller hfind => ?_⟩
  · exact hd.caller_inj hone htwo (by rw [Caller.seat, Caller.seat, hgroup, hkey])
  · rw [run_append]
    exact (start.run actions).slot_of_store fullKey value hgroup hslot hready
  · exact store_refused hs (fun _ _ hgroup => (named_run hstart actions hgroup).nodup_keys)
      hcaller hfind value

end Runs

/-- The value of the slot that was reserved first comes first, although it was stored last. -/
theorem delivered_in_order_of_reservation :
    ((launch "pairs" { Settings.default with slotCapacity := 2 } {} 72 none).1 = .ok pairs ∧
      ({} : KeyScheme).delayed = .prefixed "") ∧
    ∃ before group, Gathered pairs [.install (), .reserve 0 "a", .reserve 0 "b",
        .store "0000:b" 2, .look 0, .store "0000:a" 1, .look 1, .begin 1, .complete 1 (.ok ()),
        .conclude 1] before 0
      { group := 0, emitKey := "0000", values := [1, 2], answer := some (.ok ()) } group := by
  have hstart : (launch "pairs" { Settings.default with slotCapacity := 2 } {} 72 none).1 =
      .ok pairs := rfl
  have hdelayed : ({} : KeyScheme).delayed = .prefixed "" := rfl
  refine ⟨⟨hstart, hdelayed⟩, ?_⟩
  exact (values_delivered hstart hdelayed _).1 0 _ (by decide +kernel)

end Committer

end BatchedCommit
