import OrderFlow.GuardedRuns
import OrderFlow.SessionRouterAccounting
import OrderFlow.SessionTickRouter

/-!
# Symbols and their routes

The id of a symbol is a 32-bit hash of its name in upper case, and the registry of
the tick router knows symbols by their ids only. Registering a symbol exchanges the
buffer of whichever symbol has its id, and unregistering it removes that one's entry.

`Watch` follows a run with the buffer that each symbol has been registered with. The
ticks of every symbol go to its own buffer exactly as long as no symbol comes or goes
while another one with the same id is registered.
-/
namespace SessionSymbolRegistry

open GuardedRuns RingWindow SessionRingBuffer SessionTypes
open SessionTickRouter (tickRingCapacity oneContract)

/-- `std::toupper` on a byte, in the C locale. -/
def toupper (c : UInt8) : UInt8 := if 97 ≤ c ∧ c ≤ 122 then c - 32 else c

def upper (symbol : List UInt8) : List UInt8 := symbol.map toupper

/-- The FNV-1a hash in 32 bits. -/
def fnv1a (bytes : List UInt8) : UInt32 :=
  bytes.foldl (fun hash c => (hash ^^^ c.toUInt32) * 16777619) 2166136261

def computeSymbolId (symbol : List UInt8) : UInt32 := fnv1a (upper symbol)

variable {Buffer : Type} [DecidableEq Buffer]

/-- A call that names its symbol, with the id computed from the name. -/
inductive SymbolCall (Buffer : Type) where
  | registerSymbol (symbol : List UInt8) (buffer : Option Buffer)
  | unregisterSymbol (symbol : List UInt8)
  | route (tick : UniversalTickRecord)
  | routeMoved (tick : UniversalTickRecord)
  | tryPop (buffer : Buffer)

def SymbolCall.call : SymbolCall Buffer → Call Buffer
  | .registerSymbol symbol buffer => .registerSymbol (computeSymbolId symbol) buffer
  | .unregisterSymbol symbol => .unregisterSymbol (computeSymbolId symbol)
  | .route tick => .route tick
  | .routeMoved tick => .routeMoved tick
  | .tryPop buffer => .tryPop buffer

/-- The router, and for each symbol in upper case the buffer of its last registration
that succeeded, until it is unregistered. -/
structure Watch (Buffer : Type) where
  system : System Buffer
  registered : AList fun _ : List UInt8 => Buffer

def track (registered : AList fun _ : List UInt8 => Buffer) :
    SymbolCall Buffer → Event Buffer → AList fun _ : List UInt8 => Buffer
  | .registerSymbol symbol (some buffer), .registered _ _ true =>
    registered.insert (upper symbol) buffer
  | .unregisterSymbol symbol, _ => registered.erase (upper symbol)
  | _, _ => registered

def watchStep (capacity : Capacity) (w : Watch Buffer) (call : SymbolCall Buffer) : Watch Buffer :=
  ⟨(w.system.call capacity call.call).1,
    track w.registered call (w.system.call capacity call.call).2⟩

def watch (capacity : Capacity) (maxSymbols : UInt32) (slots : Buffer → Nat → UniversalTickRecord)
    (calls : List (SymbolCall Buffer)) : Watch Buffer :=
  calls.foldl (watchStep capacity)
    ⟨⟨newTickRouter maxSymbols, fun buffer => newBuffer (slots buffer)⟩, ∅⟩

/-- The router that is watched runs as it does without the record. -/
theorem watch_system (capacity : Capacity) (maxSymbols : UInt32)
    (slots : Buffer → Nat → UniversalTickRecord) (calls : List (SymbolCall Buffer)) :
    (watch capacity maxSymbols slots calls).system =
      (run capacity maxSymbols slots (calls.map SymbolCall.call)).system := by
  induction calls using List.reverseRecOn with
  | nil => rfl
  | append_singleton calls call ih =>
    rw [watch, run] at ih
    rw [watch, run, List.map_append, List.foldl_append, List.foldl_append]
    simp only [List.map_cons, List.map_nil, List.foldl_cons, List.foldl_nil, watchStep, step, ih]

/-- Every tick with the id of a registered symbol is offered to that symbol's buffer. -/
def OwnRoutes (w : Watch Buffer) : Prop :=
  ∀ symbol buffer tick, w.registered.lookup (upper symbol) = some buffer →
    tick.symbolId = computeSymbolId symbol → w.system.target tick = some buffer

/-- Each symbol comes with buffers of its own. -/
def OwnBuffers (owner : Buffer → List UInt8) (calls : List (SymbolCall Buffer)) : Prop :=
  ∀ symbol buffer, .registerSymbol symbol (some buffer) ∈ calls → owner buffer = upper symbol

/-- Another symbol with the same id is registered. -/
def Collides (w : Watch Buffer) (symbol : List UInt8) : Prop :=
  ∃ name ∈ w.registered.keys, name ≠ upper symbol ∧ fnv1a name = computeSymbolId symbol

/-- A registration that the limit allows, or the end of one, under an id that
another symbol has. -/
def Clash (w : Watch Buffer) : SymbolCall Buffer → Prop
  | .registerSymbol symbol (some _) =>
    w.system.router.symbolMap.keys.length < w.system.router.maxSymbols.toNat ∧ Collides w symbol
  | .unregisterSymbol symbol => Collides w symbol
  | _ => False

def ClashFree (capacity : Capacity) : Watch Buffer → List (SymbolCall Buffer) → Prop
  | _, [] => True
  | w, call :: calls => ¬ Clash w call ∧ ClashFree capacity (watchStep capacity w call) calls

instance (w : Watch Buffer) (symbol : List UInt8) : Decidable (Collides w symbol) :=
  inferInstanceAs (Decidable (∃ name ∈ _, _))

instance (w : Watch Buffer) : (call : SymbolCall Buffer) → Decidable (Clash w call)
  | .registerSymbol _ (some _) => inferInstanceAs (Decidable (_ ∧ _))
  | .registerSymbol _ none => .isFalse id
  | .unregisterSymbol symbol => inferInstanceAs (Decidable (Collides w symbol))
  | .route _ => .isFalse id
  | .routeMoved _ => .isFalse id
  | .tryPop _ => .isFalse id

instance decidableClashFree (capacity : Capacity) : (w : Watch Buffer) →
    (calls : List (SymbolCall Buffer)) → Decidable (ClashFree capacity w calls)
  | _, [] => .isTrue trivial
  | w, call :: calls =>
    have := decidableClashFree capacity (watchStep capacity w call) calls
    inferInstanceAs (Decidable (_ ∧ _))

omit [DecidableEq Buffer] in
theorem lookup_unregisterSymbol (router : TickRouter Buffer) (symbolId other : UInt32) :
    (router.unregisterSymbol symbolId).symbolMap.lookup other =
      if other = symbolId then none else router.symbolMap.lookup other := by
  rw [TickRouter.unregisterSymbol]
  by_cases hother : other = symbolId
  · subst hother
    cases h : router.symbolMap.lookup other with
    | none => simp [h]
    | some buffer => simp [AList.lookup_erase]
  · cases router.symbolMap.lookup symbolId with
    | none => simp [hother]
    | some buffer => simp [hother, AList.lookup_erase_ne]

theorem route_symbolMap (capacity : Capacity) (s : System Buffer) (tick : UniversalTickRecord) :
    (s.route capacity tick).1.router.symbolMap = s.router.symbolMap := by
  cases h : s.target tick with
  | none => rw [route_unknown h]
  | some buffer => rw [route_target h]

omit [DecidableEq Buffer] in
theorem ownRoutes_iff (w : Watch Buffer) :
    OwnRoutes w ↔ ∀ symbol buffer, w.registered.lookup (upper symbol) = some buffer →
      w.system.router.symbolMap.lookup (computeSymbolId symbol) = some buffer := by
  constructor
  · intro h symbol buffer hsymbol
    exact h symbol buffer ⟨0, 0, 0, computeSymbolId symbol, .ask, .trade⟩ hsymbol rfl
  · intro h symbol buffer tick hsymbol htick
    rw [System.target, htick]
    exact h symbol buffer hsymbol

/-- What a call does to the registry and to the record of it. -/
inductive Change (w : Watch Buffer) : SymbolCall Buffer → Watch Buffer → Prop
  | registered (symbol : List UInt8) (buffer : Buffer) (w' : Watch Buffer) :
      w.system.router.symbolMap.keys.length < w.system.router.maxSymbols.toNat →
      w'.registered = w.registered.insert (upper symbol) buffer →
      (∀ symbolId, w'.system.router.symbolMap.lookup symbolId =
        if symbolId = computeSymbolId symbol then some buffer
        else w.system.router.symbolMap.lookup symbolId) →
      Change w (.registerSymbol symbol (some buffer)) w'
  | unregistered (symbol : List UInt8) (w' : Watch Buffer) :
      w'.registered = w.registered.erase (upper symbol) →
      (∀ symbolId, w'.system.router.symbolMap.lookup symbolId =
        if symbolId = computeSymbolId symbol then none
        else w.system.router.symbolMap.lookup symbolId) →
      Change w (.unregisterSymbol symbol) w'
  | nothing (call : SymbolCall Buffer) (w' : Watch Buffer) : ¬ Clash w call →
      w'.registered = w.registered →
      w'.system.router.symbolMap = w.system.router.symbolMap → Change w call w'

theorem change_watchStep (capacity : Capacity) (w : Watch Buffer) (call : SymbolCall Buffer) :
    Change w call (watchStep capacity w call) := by
  cases call with
  | registerSymbol symbol buffer =>
    cases buffer with
    | none => exact .nothing _ _ id rfl rfl
    | some buffer =>
      by_cases hfull : w.system.router.maxSymbols.toNat ≤ w.system.router.symbolMap.keys.length
      · refine .nothing _ _ (fun h => absurd h.1 (Nat.not_lt.mpr hfull)) ?_ ?_
        · simp [watchStep, SymbolCall.call, System.call, TickRouter.registerSymbol, hfull, track]
        · simp [watchStep, SymbolCall.call, System.call, TickRouter.registerSymbol, hfull]
      · refine .registered symbol buffer _ (Nat.lt_of_not_le hfull) ?_ fun symbolId => ?_
        · simp [watchStep, SymbolCall.call, System.call, TickRouter.registerSymbol, hfull, track]
        · by_cases hid : symbolId = computeSymbolId symbol
          · subst hid
            simp [watchStep, SymbolCall.call, System.call, TickRouter.registerSymbol, hfull,
              AList.lookup_insert]
          · simp [watchStep, SymbolCall.call, System.call, TickRouter.registerSymbol, hfull, hid,
              AList.lookup_insert_ne]
  | unregisterSymbol symbol =>
    exact .unregistered symbol _ rfl fun symbolId => lookup_unregisterSymbol _ _ symbolId
  | route tick => exact .nothing _ _ id rfl (route_symbolMap capacity _ tick)
  | routeMoved tick => exact .nothing _ _ id rfl (route_symbolMap capacity _ tick)
  | tryPop buffer => exact .nothing _ _ id rfl rfl

omit [DecidableEq Buffer] in
/-- Two symbols with one id of which the other is registered are the same symbol, when
no call clashes. -/
theorem upper_eq_of_not_collides {w : Watch Buffer} {symbol other : List UInt8} {buffer : Buffer}
    (h : ¬ Collides w symbol) (hother : w.registered.lookup (upper other) = some buffer)
    (hid : computeSymbolId other = computeSymbolId symbol) : upper other = upper symbol := by
  by_contra hne
  have hmem : upper other ∈ w.registered := AList.lookup_isSome.mp (by rw [hother]; rfl)
  exact h ⟨upper other, AList.mem_keys.mp hmem, hne, hid⟩

omit [DecidableEq Buffer] in
theorem ownRoutes_step {w w' : Watch Buffer} {call : SymbolCall Buffer} (h : OwnRoutes w)
    (hchange : Change w call w') (hclash : ¬ Clash w call) : OwnRoutes w' := by
  rw [ownRoutes_iff] at h ⊢
  intro other own hother
  cases hchange with
  | registered symbol buffer _ hroom hregistered hmap =>
    have hcollides : ¬ Collides w symbol := fun hc => hclash ⟨hroom, hc⟩
    rw [hregistered] at hother
    rw [hmap]
    by_cases hname : upper other = upper symbol
    · rw [hname, AList.lookup_insert] at hother
      have hid : computeSymbolId other = computeSymbolId symbol := congrArg fnv1a hname
      rw [if_pos hid, hother]
    · rw [AList.lookup_insert_ne hname] at hother
      have hid : computeSymbolId other ≠ computeSymbolId symbol := fun hid =>
        hname (upper_eq_of_not_collides hcollides hother hid)
      rw [if_neg hid]
      exact h other own hother
  | unregistered symbol _ hregistered hmap =>
    rw [hregistered] at hother
    rw [hmap]
    by_cases hname : upper other = upper symbol
    · rw [hname, AList.lookup_erase] at hother
      cases hother
    · rw [AList.lookup_erase_ne hname] at hother
      have hid : computeSymbolId other ≠ computeSymbolId symbol := fun hid =>
        hname (upper_eq_of_not_collides hclash hother hid)
      rw [if_neg hid]
      exact h other own hother
  | nothing _ _ hnot hregistered hmap =>
    rw [hregistered] at hother
    rw [hmap]
    exact h other own hother

omit [DecidableEq Buffer] in
theorem exists_lookup {registered : AList fun _ : List UInt8 => Buffer} {name : List UInt8}
    (h : name ∈ registered.keys) : ∃ own, registered.lookup name = some own :=
  Option.isSome_iff_exists.mp (AList.lookup_isSome.mpr (AList.mem_keys.mpr h))

/-- A registered name is that of a symbol, and its buffer belongs to it. -/
def Owned (owner : Buffer → List UInt8) (w : Watch Buffer) : Prop :=
  ∀ name buffer, w.registered.lookup name = some buffer →
    owner buffer = name ∧ ∃ symbol, upper symbol = name

omit [DecidableEq Buffer] in
theorem owned_step {owner : Buffer → List UInt8} {w w' : Watch Buffer} {call : SymbolCall Buffer}
    (h : Owned owner w) (hchange : Change w call w') (hcall : OwnBuffers owner [call]) :
    Owned owner w' := by
  intro name own hname
  cases hchange with
  | registered symbol buffer _ hroom hregistered hmap =>
    rw [hregistered] at hname
    by_cases heq : name = upper symbol
    · rw [heq, AList.lookup_insert, Option.some_inj] at hname
      rw [heq, ← hname]
      exact ⟨hcall symbol buffer (List.mem_singleton_self _), symbol, rfl⟩
    · rw [AList.lookup_insert_ne heq] at hname
      exact h name own hname
  | unregistered symbol _ hregistered hmap =>
    rw [hregistered] at hname
    by_cases heq : name = upper symbol
    · rw [heq, AList.lookup_erase] at hname
      cases hname
    · rw [AList.lookup_erase_ne heq] at hname
      exact h name own hname
  | nothing _ _ hnot hregistered hmap =>
    rw [hregistered] at hname
    exact h name own hname

omit [DecidableEq Buffer] in
/-- The other symbol of a collision, with its buffer. -/
theorem exists_of_collides {owner : Buffer → List UInt8} {w : Watch Buffer} {symbol : List UInt8}
    (howned : Owned owner w) (h : Collides w symbol) :
    ∃ other own, w.registered.lookup (upper other) = some own ∧ owner own = upper other ∧
      upper other ≠ upper symbol ∧ computeSymbolId other = computeSymbolId symbol := by
  obtain ⟨name, hmem, hne, hid⟩ := h
  obtain ⟨own, hown⟩ := exists_lookup hmem
  obtain ⟨howner, other, rfl⟩ := howned name own hown
  exact ⟨other, own, hown, howner, hne, hid⟩

omit [DecidableEq Buffer] in
/-- After a clash, ticks of the other symbol no longer go to its own buffer. -/
theorem not_ownRoutes_of_clash {owner : Buffer → List UInt8} {w w' : Watch Buffer}
    {call : SymbolCall Buffer} (howned : Owned owner w) (hchange : Change w call w')
    (hcall : OwnBuffers owner [call]) (hclash : Clash w call) : ¬ OwnRoutes w' := by
  rw [ownRoutes_iff]
  intro h
  cases hchange with
  | registered symbol buffer _ hroom hregistered hmap =>
    obtain ⟨other, own, hown, howner, hne, hid⟩ := exists_of_collides howned hclash.2
    have htarget := h other own (by rw [hregistered, AList.lookup_insert_ne hne, hown])
    rw [hmap, if_pos hid, Option.some_inj] at htarget
    rw [← htarget, hcall symbol buffer (List.mem_singleton_self _)] at howner
    exact hne howner.symm
  | unregistered symbol _ hregistered hmap =>
    obtain ⟨other, own, hown, howner, hne, hid⟩ := exists_of_collides howned hclash
    have htarget := h other own (by rw [hregistered, AList.lookup_erase_ne hne, hown])
    rw [hmap, if_pos hid] at htarget
    cases htarget
  | nothing _ _ hnot hregistered hmap => exact hnot hclash

theorem clashFree_iff_guarded (capacity : Capacity) (w : Watch Buffer)
    (calls : List (SymbolCall Buffer)) :
    ClashFree capacity w calls ↔
      Guarded (watchStep capacity) (fun w call => ¬ Clash w call) w calls := by
  induction calls generalizing w with
  | nil => exact Iff.rfl
  | cons call calls ih => rw [ClashFree, Guarded, ih]

theorem ownRoutes_foldl_iff (capacity : Capacity) {owner : Buffer → List UInt8} {w : Watch Buffer}
    (howned : Owned owner w) (hroutes : OwnRoutes w) (calls : List (SymbolCall Buffer))
    (hown : OwnBuffers owner calls) :
    (∀ first, first <+: calls → OwnRoutes (first.foldl (watchStep capacity) w)) ↔
      ClashFree capacity w calls := by
  have hcall : ∀ call ∈ calls, OwnBuffers owner [call] := fun call hcalls symbol buffer hmem =>
    hown symbol buffer (List.mem_singleton.mp hmem ▸ hcalls)
  rw [clashFree_iff_guarded]
  refine prefixes_iff_guarded (Owned owner) OwnRoutes ?_ ?_ howned hroutes
  · intro w call hmem howned
    exact owned_step howned (change_watchStep capacity w call) (hcall call hmem)
  · intro w call hmem howned hroutes
    have hchange := change_watchStep capacity w call
    constructor
    · intro hroutes' hclash
      exact not_ownRoutes_of_clash howned hchange (hcall call hmem) hclash hroutes'
    · exact ownRoutes_step hroutes hchange

/-- In a run in which symbols have buffers of their own, every tick goes to the buffer
of its symbol all the time exactly if no symbol comes or goes while another one with
its id is registered. -/
theorem watch_ownRoutes_iff (capacity : Capacity) (maxSymbols : UInt32)
    (slots : Buffer → Nat → UniversalTickRecord) (owner : Buffer → List UInt8)
    (calls : List (SymbolCall Buffer)) (hown : OwnBuffers owner calls) :
    (∀ first, first <+: calls → OwnRoutes (watch capacity maxSymbols slots first)) ↔
      ClashFree capacity (watch capacity maxSymbols slots []) calls := by
  refine ownRoutes_foldl_iff capacity ?_ ?_ calls hown
  · intro name buffer h
    rw [AList.lookup_empty] at h
    cases h
  · intro symbol buffer tick h
    rw [AList.lookup_empty] at h
    cases h

/-- The symbols SWY and JZRT#F. -/
def nameOf : Bool → List UInt8
  | false => [83, 87, 89]
  | true => [74, 90, 82, 84, 35, 70]

/-- Both symbols are registered, each with its own buffer. -/
def bothRegistered : List (SymbolCall Bool) :=
  [.registerSymbol (nameOf false) (some false), .registerSymbol (nameOf true) (some true)]

theorem ownBuffers_bothRegistered : OwnBuffers nameOf bothRegistered := by
  intro symbol buffer h
  simp only [bothRegistered, List.mem_cons, List.not_mem_nil, SymbolCall.registerSymbol.injEq,
    Option.some_inj, or_false] at h
  rcases h with ⟨rfl, rfl⟩ | ⟨rfl, rfl⟩
  · decide
  · decide

/-- The two names have one hash, and the second registration takes the ticks of the
first symbol. -/
theorem symbols_share_route :
    OwnBuffers nameOf bothRegistered ∧
      ¬ OwnRoutes (watch tickRingCapacity 2 (fun _ _ => oneContract) bothRegistered) := by
  refine ⟨ownBuffers_bothRegistered, fun h => ?_⟩
  have htarget := h (nameOf false) false
    ⟨0, 100, 1, computeSymbolId (nameOf false), .ask, .trade⟩ (by decide) rfl
  revert htarget
  decide

/-- The symbol ES, then also written es, next to SWY. -/
def distinctIds : List (SymbolCall Bool) :=
  [.registerSymbol (nameOf false) (some false), .registerSymbol [69, 83] (some true),
    .route oneContract, .registerSymbol [101, 115] (some true), .unregisterSymbol [69, 115]]

def distinctOwner : Bool → List UInt8
  | false => nameOf false
  | true => [69, 83]

theorem watch_ownRoutes_distinctIds :
    OwnRoutes (watch tickRingCapacity 3 (fun _ _ => oneContract) distinctIds) := by
  refine (watch_ownRoutes_iff _ _ _ distinctOwner distinctIds ?_).mpr (by decide) _
    (List.prefix_refl _)
  intro symbol buffer hmem
  simp only [distinctIds, List.mem_cons, List.not_mem_nil, SymbolCall.registerSymbol.injEq,
    Option.some_inj, or_false, reduceCtorEq, false_or] at hmem
  rcases hmem with ⟨rfl, rfl⟩ | ⟨rfl, rfl⟩ | ⟨rfl, rfl⟩
  · decide
  · decide
  · decide

end SessionSymbolRegistry
