import OrderFlow.SessionSymbolRegistry

/-!
# The accounts of the tick router

Every route call is counted once, as routed, dropped or unknown, and the drops of
the router are those of the buffers together. What has been popped from a buffer and
what it holds are the ticks that were routed to it, in order, through any changes of
the registry.
-/
namespace SessionSymbolRegistry

open RingWindow SessionRingBuffer SessionTypes

variable {Buffer : Type} [DecidableEq Buffer]

def isRoute : Call Buffer → Bool
  | .route _ => true
  | .routeMoved _ => true
  | _ => false

/-- The tick a route call has put into a buffer. -/
def sentTo (buffer : Buffer) : Event Buffer → Option UniversalTickRecord
  | .routed tick target true => if target = some buffer then some tick else none
  | _ => none

def poppedFrom (buffer : Buffer) : Event Buffer → Option UniversalTickRecord
  | .popped source result => if source = buffer then result else none
  | _ => none

/-- All buffers together have counted so many drops. -/
def DropCount (rings : Buffer → SPSCRingBuffer UniversalTickRecord) (count : Nat) : Prop :=
  ∃ buffers : Finset Buffer, (∀ buffer, buffer ∉ buffers → (rings buffer).dropped = 0) ∧
    count = ∑ buffer ∈ buffers, (rings buffer).dropped

/-- The accounts after a run of calls, as `get_stats` has them. -/
structure Accounts (capacity : Capacity) (maxSymbols : UInt32) (calls : List (Call Buffer))
    (s : State Buffer) : Prop where
  limit : s.system.router.symbolMap.keys.length ≤ maxSymbols.toNat
  active : s.system.router.getStats.activeSymbols.toNat = s.system.router.symbolMap.keys.length
  counted : s.system.router.getStats.ticksRoutedTotal + s.system.router.getStats.ticksDroppedTotal +
    s.system.router.getStats.ticksUnknownSymbol = calls.countP isRoute
  drops : DropCount s.system.rings s.system.router.getStats.ticksDroppedTotal
  contents : ∀ buffer, s.log.filterMap (poppedFrom buffer) ++ held capacity (s.system.rings buffer) =
    s.log.filterMap (sentTo buffer)

/-- A route call that returns `true` is the one that counts as routed, and the only
buffer it may change is the one registered for its tick. -/
def RouteFrame (s : System Buffer) (tick : UniversalTickRecord) (after : System Buffer × Bool) :
    Prop :=
  (after.2 = true ↔ after.1.router.ticksRouted = s.router.ticksRouted + 1) ∧
    ∀ buffer, s.target tick ≠ some buffer → after.1.rings buffer = s.rings buffer

/-- What a call leaves as it was. -/
def Frame (capacity : Capacity) (s : System Buffer) : Call Buffer → Prop
  | .registerSymbol symbolId buffer =>
    (s.router.registerSymbol symbolId buffer).2 = false →
      (s.call capacity (.registerSymbol symbolId buffer)).1 = s
  | .unregisterSymbol symbolId =>
    s.router.symbolMap.lookup symbolId = none →
      (s.call capacity (.unregisterSymbol symbolId)).1 = s
  | .route tick => RouteFrame s tick (s.route capacity tick)
  | .routeMoved tick => RouteFrame s tick (s.routeMoved capacity tick)
  | .tryPop buffer =>
    (s.call capacity (.tryPop buffer)).1.router = s.router ∧
      ∀ other, other ≠ buffer → (s.call capacity (.tryPop buffer)).1.rings other = s.rings other

theorem route_unknown {capacity : Capacity} {s : System Buffer} {tick : UniversalTickRecord}
    (h : s.target tick = none) :
    s.route capacity tick =
      ({ s with router.ticksUnknown := s.router.ticksUnknown + 1 }, false) := by
  simp [System.route, h]

/-- A tick with a buffer is counted as routed or as dropped, as its push returns. -/
theorem route_target {capacity : Capacity} {s : System Buffer} {tick : UniversalTickRecord}
    {buffer : Buffer} (h : s.target tick = some buffer) :
    s.route capacity tick =
      ({ router :=
          { s.router with
            ticksRouted :=
              s.router.ticksRouted + if (tryPush capacity (s.rings buffer) tick).2 then 1 else 0
            ticksDropped :=
              s.router.ticksDropped + if (tryPush capacity (s.rings buffer) tick).2 then 0 else 1 }
         rings := Function.update s.rings buffer (tryPush capacity (s.rings buffer) tick).1 },
        (tryPush capacity (s.rings buffer) tick).2) := by
  simp only [System.route, h]
  cases hpush : tryPush capacity (s.rings buffer) tick with
  | mk ring pushed =>
    cases pushed with
    | false => simp
    | true => simp

theorem routeFrame_route (capacity : Capacity) (s : System Buffer) (tick : UniversalTickRecord) :
    RouteFrame s tick (s.route capacity tick) := by
  cases h : s.target tick with
  | none =>
    rw [route_unknown h]
    exact ⟨by simp, fun _ _ => rfl⟩
  | some buffer =>
    rw [route_target h]
    refine ⟨?_, fun other hother => ?_⟩
    · cases (tryPush capacity (s.rings buffer) tick).2 <;> simp
    · exact Function.update_of_ne (fun he => hother (h.trans (congrArg some he.symm))) _ _

theorem frame_call (capacity : Capacity) (s : System Buffer) (call : Call Buffer) :
    Frame capacity s call := by
  cases call with
  | registerSymbol symbolId buffer =>
    intro hfail
    cases buffer with
    | none => rfl
    | some buffer =>
      by_cases hfull : s.router.maxSymbols.toNat ≤ s.router.symbolMap.keys.length
      · simp [System.call, TickRouter.registerSymbol, hfull]
      · simp [TickRouter.registerSymbol, hfull] at hfail
  | unregisterSymbol symbolId =>
    intro hnone
    simp [System.call, TickRouter.unregisterSymbol, hnone]
  | route tick => exact routeFrame_route capacity s tick
  | routeMoved tick => exact routeFrame_route capacity s tick
  | tryPop buffer => exact ⟨rfl, fun other hother => Function.update_of_ne hother _ _⟩

theorem dropCount_update {rings : Buffer → SPSCRingBuffer UniversalTickRecord} {count extra : Nat}
    {buffer : Buffer} {ring : SPSCRingBuffer UniversalTickRecord} (h : DropCount rings count)
    (hring : ring.dropped = (rings buffer).dropped + extra) :
    DropCount (Function.update rings buffer ring) (count + extra) := by
  obtain ⟨buffers, hzero, hsum⟩ := h
  refine ⟨insert buffer buffers, fun other hother => ?_, ?_⟩
  · have hne : other ≠ buffer := fun he => hother (he ▸ Finset.mem_insert_self _ _)
    rw [Function.update_of_ne hne]
    exact hzero other fun hmem => hother (Finset.mem_insert_of_mem hmem)
  · have hall : count = ∑ other ∈ insert buffer buffers, (rings other).dropped := by
      rw [hsum]
      exact Finset.sum_subset (Finset.subset_insert _ _) fun other _ hother => hzero other hother
    have hrest : ∑ other ∈ insert buffer buffers \ {buffer},
        (Function.update rings buffer ring other).dropped =
          ∑ other ∈ insert buffer buffers \ {buffer}, (rings other).dropped := by
      refine Finset.sum_congr rfl fun other hother => ?_
      rw [Function.update_of_ne (by simpa using (Finset.mem_sdiff.mp hother).2)]
    have hmem : buffer ∈ insert buffer buffers := Finset.mem_insert_self _ _
    rw [hall, ← Finset.sum_sdiff (Finset.singleton_subset_iff.mpr hmem),
      ← Finset.sum_sdiff (Finset.singleton_subset_iff.mpr hmem), hrest]
    simp only [Finset.sum_singleton, Function.update_self, hring]
    omega

theorem tryPush_dropped (capacity : Capacity) (b : SPSCRingBuffer UniversalTickRecord)
    (tick : UniversalTickRecord) :
    (tryPush capacity b tick).1.dropped =
      b.dropped + if (tryPush capacity b tick).2 then 0 else 1 := by
  by_cases hfull : advance capacity b.tail = b.head
  · simp [tryPush, hfull]
  · simp [tryPush, hfull]

theorem tryPop_dropped (capacity : Capacity) (b : SPSCRingBuffer UniversalTickRecord) :
    (tryPop capacity b).1.dropped = b.dropped := by
  by_cases hempty : b.head = b.tail
  · simp [tryPop, hempty]
  · simp [tryPop, hempty]

/-- The log has, for each buffer, what went in and what came out. -/
def Logged (capacity : Capacity) (rings : Buffer → SPSCRingBuffer UniversalTickRecord)
    (log : List (Event Buffer)) : Prop :=
  ∀ buffer, Buffered capacity (rings buffer) (log.filterMap (sentTo buffer))
    (log.filterMap (poppedFrom buffer)) []

/-- What every call keeps. -/
structure Inv (capacity : Capacity) (maxSymbols : UInt32) (calls : List (Call Buffer))
    (s : State Buffer) : Prop where
  bound : s.system.router.maxSymbols = maxSymbols
  limit : s.system.router.symbolMap.keys.length ≤ maxSymbols.toNat
  counted : s.system.router.ticksRouted + s.system.router.ticksDropped +
    s.system.router.ticksUnknown = calls.countP isRoute
  drops : DropCount s.system.rings s.system.router.ticksDropped
  logged : Logged capacity s.system.rings s.log

theorem inv_initial (capacity : Capacity) (maxSymbols : UInt32)
    (slots : Buffer → Nat → UniversalTickRecord) :
    Inv capacity maxSymbols [] (initial maxSymbols slots) where
  bound := rfl
  limit := Nat.zero_le _
  counted := rfl
  drops := ⟨∅, fun _ _ => rfl, rfl⟩
  logged := fun buffer => buffered_new capacity (slots buffer)

/-- A call that moves no tick. -/
theorem logged_still {capacity : Capacity} {rings : Buffer → SPSCRingBuffer UniversalTickRecord}
    {log : List (Event Buffer)} {event : Event Buffer} (h : Logged capacity rings log)
    (hsent : ∀ buffer, sentTo buffer event = none)
    (hpopped : ∀ buffer, poppedFrom buffer event = none) :
    Logged capacity rings (log ++ [event]) := by
  intro buffer
  simpa [hsent, hpopped] using h buffer

theorem logged_routed {capacity : Capacity} {rings : Buffer → SPSCRingBuffer UniversalTickRecord}
    {log : List (Event Buffer)} (h : Logged capacity rings log) (tick : UniversalTickRecord)
    (target : Buffer) :
    Logged capacity (Function.update rings target (tryPush capacity (rings target) tick).1)
      (log ++ [.routed tick (some target) (tryPush capacity (rings target) tick).2]) := by
  intro buffer
  rw [List.filterMap_append, List.filterMap_append]
  by_cases hbuffer : buffer = target
  · subst hbuffer
    have hpush := buffered_tryPush (h buffer) tick
    rw [Function.update_self]
    cases hresult : (tryPush capacity (rings buffer) tick).2 with
    | false => simpa [hresult, List.filterMap_cons, sentTo, poppedFrom] using hpush
    | true => simpa [hresult, List.filterMap_cons, sentTo, poppedFrom] using hpush
  · have hne : target ≠ buffer := fun he => hbuffer he.symm
    rw [Function.update_of_ne hbuffer]
    cases (tryPush capacity (rings target) tick).2 with
    | false => simpa [List.filterMap_cons, sentTo, poppedFrom] using h buffer
    | true => simpa [List.filterMap_cons, sentTo, poppedFrom, hne] using h buffer

theorem logged_popped {capacity : Capacity} {rings : Buffer → SPSCRingBuffer UniversalTickRecord}
    {log : List (Event Buffer)} (h : Logged capacity rings log) (source : Buffer) :
    Logged capacity (Function.update rings source (tryPop capacity (rings source)).1)
      (log ++ [.popped source (tryPop capacity (rings source)).2]) := by
  intro buffer
  rw [List.filterMap_append, List.filterMap_append]
  by_cases hbuffer : buffer = source
  · subst hbuffer
    have hpop := buffered_tryPop (h buffer)
    rw [Function.update_self]
    cases hresult : (tryPop capacity (rings buffer)).2 with
    | none => simpa [hresult, List.filterMap_cons, sentTo, poppedFrom] using hpop
    | some tick => simpa [hresult, List.filterMap_cons, sentTo, poppedFrom] using hpop
  · have hne : source ≠ buffer := fun he => hbuffer he.symm
    rw [Function.update_of_ne hbuffer]
    simpa [List.filterMap_cons, sentTo, poppedFrom, hne] using h buffer

theorem inv_route {capacity : Capacity} {maxSymbols : UInt32} {calls : List (Call Buffer)}
    {s : State Buffer} {call : Call Buffer} (h : Inv capacity maxSymbols calls s)
    (tick : UniversalTickRecord) (hcall : isRoute call = true) :
    Inv capacity maxSymbols (calls ++ [call])
      ⟨(s.system.route capacity tick).1,
        s.log ++ [Event.routed tick (s.system.target tick) (s.system.route capacity tick).2]⟩ := by
  have hcounted := h.counted
  have hcount : (calls ++ [call]).countP isRoute = calls.countP isRoute + 1 := by simp [hcall]
  cases htarget : s.system.target tick with
  | none =>
    rw [route_unknown htarget]
    refine ⟨h.bound, h.limit, ?_, h.drops, logged_still h.logged (fun _ => rfl) fun _ => rfl⟩
    rw [hcount, ← hcounted]
    exact (Nat.add_assoc _ _ _).symm
  | some buffer =>
    rw [route_target htarget]
    refine ⟨h.bound, h.limit, ?_, ?_, logged_routed h.logged tick buffer⟩
    · rw [hcount, ← hcounted]
      dsimp only
      split
      · omega
      · omega
    · exact dropCount_update h.drops (tryPush_dropped capacity _ tick)

omit [DecidableEq Buffer] in
/-- Neither kind of change of the registry goes over the limit. -/
theorem registerSymbol_limit {router : TickRouter Buffer} {maxSymbols : UInt32}
    (hmax : router.maxSymbols = maxSymbols)
    (h : router.symbolMap.keys.length ≤ maxSymbols.toNat) (symbolId : UInt32)
    (buffer : Option Buffer) :
    (router.registerSymbol symbolId buffer).1.symbolMap.keys.length ≤ maxSymbols.toNat := by
  cases buffer with
  | none => exact h
  | some buffer =>
    by_cases hfull : router.maxSymbols.toNat ≤ router.symbolMap.keys.length
    · simpa [TickRouter.registerSymbol, hfull] using h
    · have herase := List.length_erase_le (a := symbolId) (l := router.symbolMap.keys)
      simp only [TickRouter.registerSymbol, hfull, if_false, AList.keys_insert, List.length_cons]
      rw [hmax] at hfull
      omega

omit [DecidableEq Buffer] in
theorem unregisterSymbol_limit (router : TickRouter Buffer) (symbolId : UInt32) :
    (router.unregisterSymbol symbolId).symbolMap.keys.length ≤ router.symbolMap.keys.length := by
  rw [TickRouter.unregisterSymbol]
  split
  · exact Nat.le_refl _
  · rw [AList.keys_erase]
    exact List.length_erase_le

omit [DecidableEq Buffer] in
/-- A change of the registry leaves the rest of the router alone. -/
theorem registerSymbol_frame (router : TickRouter Buffer) (symbolId : UInt32)
    (buffer : Option Buffer) :
    (router.registerSymbol symbolId buffer).1 =
      { router with symbolMap := (router.registerSymbol symbolId buffer).1.symbolMap } := by
  cases buffer with
  | none => rfl
  | some buffer =>
    rw [TickRouter.registerSymbol]
    split
    · rfl
    · rfl

omit [DecidableEq Buffer] in
theorem unregisterSymbol_frame (router : TickRouter Buffer) (symbolId : UInt32) :
    router.unregisterSymbol symbolId =
      { router with symbolMap := (router.unregisterSymbol symbolId).symbolMap } := by
  rw [TickRouter.unregisterSymbol]
  split
  · rfl
  · rfl

/-- A change of the registry alone, within the limit. -/
theorem inv_registry {capacity : Capacity} {maxSymbols : UInt32} {calls : List (Call Buffer)}
    {s : State Buffer} {call : Call Buffer} {event : Event Buffer} {router : TickRouter Buffer}
    (h : Inv capacity maxSymbols calls s) (hcall : isRoute call = false)
    (hsent : ∀ buffer, sentTo buffer event = none)
    (hpopped : ∀ buffer, poppedFrom buffer event = none)
    (hrouter : router = { s.system.router with symbolMap := router.symbolMap })
    (hlimit : router.symbolMap.keys.length ≤ maxSymbols.toNat) :
    Inv capacity maxSymbols (calls ++ [call])
      ⟨{ s.system with router := router }, s.log ++ [event]⟩ := by
  rw [hrouter]
  refine ⟨h.bound, hlimit, ?_, h.drops, logged_still h.logged hsent hpopped⟩
  simpa [hcall] using h.counted

theorem inv_step {capacity : Capacity} {maxSymbols : UInt32} {calls : List (Call Buffer)}
    {s : State Buffer} (h : Inv capacity maxSymbols calls s) (call : Call Buffer) :
    Inv capacity maxSymbols (calls ++ [call]) (step capacity s call) := by
  cases call with
  | registerSymbol symbolId buffer =>
    exact inv_registry h rfl (fun _ => rfl) (fun _ => rfl) (registerSymbol_frame _ _ _)
      (registerSymbol_limit h.bound h.limit symbolId buffer)
  | unregisterSymbol symbolId =>
    exact inv_registry h rfl (fun _ => rfl) (fun _ => rfl) (unregisterSymbol_frame _ _)
      (Nat.le_trans (unregisterSymbol_limit _ _) h.limit)
  | route tick => exact inv_route h tick rfl
  | routeMoved tick => exact inv_route h tick rfl
  | tryPop buffer =>
    have hdrops : DropCount (Function.update s.system.rings buffer
        (tryPop capacity (s.system.rings buffer)).1) (s.system.router.ticksDropped + 0) :=
      dropCount_update h.drops (tryPop_dropped capacity _)
    refine ⟨h.bound, h.limit, ?_, hdrops, logged_popped h.logged buffer⟩
    simpa [isRoute, step, System.call] using h.counted

theorem inv_run (capacity : Capacity) (maxSymbols : UInt32)
    (slots : Buffer → Nat → UniversalTickRecord) (calls : List (Call Buffer)) :
    Inv capacity maxSymbols calls (run capacity maxSymbols slots calls) := by
  induction calls using List.reverseRecOn with
  | nil => exact inv_initial capacity maxSymbols slots
  | append_singleton calls call ih =>
    rw [run, List.foldl_concat]
    exact inv_step ih call

theorem accounts_of_inv {capacity : Capacity} {maxSymbols : UInt32} {calls : List (Call Buffer)}
    {s : State Buffer} (h : Inv capacity maxSymbols calls s) :
    Accounts capacity maxSymbols calls s where
  limit := h.limit
  active := UInt32.toNat_ofNat_of_lt' (Nat.lt_of_le_of_lt h.limit (UInt32.toNat_lt _))
  counted := h.counted
  drops := h.drops
  contents := fun buffer => by
    have hlogged := h.logged buffer
    obtain ⟨rest, hrest⟩ := hlogged.fifo
    rw [held_eq hlogged, ← hrest, List.drop_left]

/-- The accounts hold after every run, and every call leaves alone what it should. -/
theorem run_accounts (capacity : Capacity) (maxSymbols : UInt32)
    (slots : Buffer → Nat → UniversalTickRecord) (calls : List (Call Buffer)) :
    Accounts capacity maxSymbols calls (run capacity maxSymbols slots calls) ∧
      ∀ call, Frame capacity (run capacity maxSymbols slots calls).system call :=
  ⟨accounts_of_inv (inv_run capacity maxSymbols slots calls), fun call => frame_call capacity _ call⟩

end SessionSymbolRegistry
