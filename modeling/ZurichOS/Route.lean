import Mathlib.Algebra.Group.Nat.Defs
import Mathlib.Data.List.Range
import Mathlib.Logic.Function.Basic

/-!
The routing table of `services/net/route.c`: a lookup is a fold over the table that keeps the best
of the routes that match.
-/

namespace ZurichOS

abbrev maxRoutes : Nat := 16
abbrev routeFlagUp : Nat := 0x01
abbrev routeFlagGateway : Nat := 0x02
abbrev routeFlagDefault : Nat := 0x08

structure RouteEntry where
  dest : Nat
  netmask : Nat
  gateway : Nat
  metric : Nat
  flags : Nat
  inUse : Bool

abbrev RouteTable := Nat → RouteEntry

def routeInit : RouteTable := fun _ => ⟨0, 0, 0, 0, 0, false⟩

def routeAdd (routes : RouteTable) (dest netmask gateway metric : Nat) : Int × RouteTable :=
  match (List.range maxRoutes).find? fun i => !(routes i).inUse with
  | none => (-1, routes)
  | some i =>
      let flags := routeFlagUp
      let flags := if gateway ≠ 0 then flags ||| routeFlagGateway else flags
      let flags := if dest = 0 ∧ netmask = 0 then flags ||| routeFlagDefault else flags
      (0, Function.update routes i ⟨dest, netmask, gateway, metric, flags, true⟩)

def routeDel (routes : RouteTable) (dest netmask : Nat) : Int × RouteTable :=
  match (List.range maxRoutes).find? fun i =>
      (routes i).inUse ∧ (routes i).dest = dest ∧ (routes i).netmask = netmask with
  | none => (-1, routes)
  | some i => (0, Function.update routes i { routes i with inUse := false })

/-- The three variables of `route_lookup`. -/
structure BestRoute where
  gateway : Nat
  mask : Nat
  metric : Nat
  deriving DecidableEq

def RouteEntry.Matches (route : RouteEntry) (dest : Nat) : Prop :=
  route.inUse = true ∧ route.flags &&& routeFlagUp ≠ 0 ∧
    dest &&& route.netmask = route.dest &&& route.netmask

instance (route : RouteEntry) (dest : Nat) : Decidable (route.Matches dest) :=
  inferInstanceAs (Decidable (_ ∧ _ ∧ _))

/-- A turn of the loop. -/
def routeConsider (routes : RouteTable) (dest : Nat) (best : BestRoute) (i : Nat) : BestRoute :=
  let route := routes i
  if route.Matches dest then
    if best.mask ≤ route.netmask then
      if best.mask < route.netmask ∨ route.metric < best.metric then
        ⟨route.gateway, route.netmask, route.metric⟩
      else best
    else best
  else best

def routeScan (routes : RouteTable) (dest count : Nat) : BestRoute :=
  (List.range count).foldl (routeConsider routes dest) ⟨0, 0, 0xFFFFFFFF⟩

def routeLookup (routes : RouteTable) (dest : Nat) : Nat := (routeScan routes dest maxRoutes).gateway

inductive RouteCall where
  | add (dest netmask gateway metric : Nat)
  | del (dest netmask : Nat)

def routeStep (routes : RouteTable) : RouteCall → RouteTable
  | .add dest netmask gateway metric => (routeAdd routes dest netmask gateway metric).2
  | .del dest netmask => (routeDel routes dest netmask).2

def routeRun (calls : List RouteCall) : RouteTable := calls.foldl routeStep routeInit

/-- The mask of a prefix of this many bits. -/
def prefixMask (bits : Nat) : Nat := 4294967296 - 2 ^ (32 - bits)

/-- The bits of the prefix that a mask stands for. -/
def prefixLength (mask : Nat) : Nat := (List.range 32).countP mask.testBit

/-- An added route has a contiguous netmask, and a metric below the one that stands for none. -/
def RouteCall.Proper : RouteCall → Prop
  | .add _ netmask _ metric => (∃ bits ≤ 32, netmask = prefixMask bits) ∧ metric < 0xFFFFFFFF
  | .del _ _ => True

/-- The first route is the better one: of a longer prefix, or of the same and a smaller metric. -/
def Better (first second : RouteEntry) : Prop :=
  prefixLength second.netmask < prefixLength first.netmask ∨
    prefixLength second.netmask = prefixLength first.netmask ∧ first.metric < second.metric

/-- The route of the slot matches, and none is better, nor as good in an earlier slot. -/
structure BestMatch (routes : RouteTable) (dest count i : Nat) : Prop where
  inside : i < count
  hits : (routes i).Matches dest
  unbeaten : ∀ j < count, (routes j).Matches dest → ¬ Better (routes j) (routes i)
  first : ∀ j < i, (routes j).Matches dest → Better (routes i) (routes j)

/-- The routes that are in use are up, and as they are meant to be added. -/
def RouteTable.Proper (routes : RouteTable) : Prop :=
  ∀ i, (routes i).inUse = true → (routes i).flags &&& routeFlagUp ≠ 0 ∧
    (∃ bits ≤ 32, (routes i).netmask = prefixMask bits) ∧ (routes i).metric < 0xFFFFFFFF

variable {routes : RouteTable} {dest count i : Nat}

theorem prefixLength_mask {bits : Nat} (short : bits ≤ 32) :
    prefixLength (prefixMask bits) = bits := by
  have all : ∀ bits < 33, prefixLength (prefixMask bits) = bits := by decide
  exact all bits (Nat.lt_succ_of_le short)

theorem prefixMask_lt {bits other : Nat} (short : bits ≤ 32) (shortOther : other ≤ 32) :
    prefixMask bits < prefixMask other ↔ bits < other := by
  have room (bits : Nat) : 2 ^ (32 - bits) ≤ 4294967296 :=
    Nat.pow_le_pow_right (by decide) (Nat.sub_le 32 bits)
  have order : 2 ^ (32 - other) < 2 ^ (32 - bits) ↔ 32 - other < 32 - bits :=
    Nat.pow_lt_pow_iff_right (by decide)
  have first := room bits
  have second := room other
  rw [prefixMask, prefixMask]
  omega

/-- Contiguous masks are ordered as their prefixes. -/
theorem RouteTable.Proper.mask_lt (proper : routes.Proper) {i j : Nat}
    (used : (routes i).inUse = true) (usedOther : (routes j).inUse = true) :
    (routes i).netmask < (routes j).netmask ↔
      prefixLength (routes i).netmask < prefixLength (routes j).netmask := by
  obtain ⟨-, ⟨bits, short, is⟩, -⟩ := proper i used
  obtain ⟨-, ⟨other, shortOther, isOther⟩, -⟩ := proper j usedOther
  rw [is, isOther, prefixMask_lt short shortOther, prefixLength_mask short,
    prefixLength_mask shortOther]

theorem RouteTable.Proper.step (proper : routes.Proper) {call : RouteCall} (fits : call.Proper) :
    (routeStep routes call).Proper := by
  cases call with
  | add dest netmask gateway metric =>
      rw [routeStep, routeAdd]
      cases (List.range maxRoutes).find? fun i => !(routes i).inUse with
      | none => exact proper
      | some slot =>
          intro i used
          dsimp only at used ⊢
          by_cases own : i = slot
          · subst own
            rw [Function.update_self]
            refine ⟨?_, fits.1, fits.2⟩
            dsimp only
            split_ifs <;> decide
          · rw [Function.update_of_ne own] at used ⊢
            exact proper i used
  | del dest netmask =>
      rw [routeStep, routeDel]
      cases (List.range maxRoutes).find? fun i =>
        (routes i).inUse ∧ (routes i).dest = dest ∧ (routes i).netmask = netmask with
      | none => exact proper
      | some slot =>
          intro i used
          dsimp only at used ⊢
          by_cases own : i = slot
          · subst own
            rw [Function.update_self] at used
            cases used
          · rw [Function.update_of_ne own] at used ⊢
            exact proper i used

theorem routeRun_proper {calls : List RouteCall} (fits : ∀ call ∈ calls, call.Proper) :
    (routeRun calls).Proper := by
  unfold routeRun
  induction calls using List.reverseRecOn with
  | nil =>
      intro i used
      cases used
  | append_singleton calls call ih =>
      rw [List.foldl_append]
      exact (ih fun other member => fits other (List.mem_append_left _ member)).step
        (fits call (List.mem_append_right _ (List.mem_singleton_self _)))

/-- What the loop has after some slots: its first values if none matches, else the best. The
induction is on the slots; a slot takes the place of the best exactly if it is better. -/
theorem RouteTable.Proper.scan (proper : routes.Proper) (dest count : Nat) :
    (∀ i < count, ¬ (routes i).Matches dest) ∧ routeScan routes dest count = ⟨0, 0, 0xFFFFFFFF⟩ ∨
    ∃ i, BestMatch routes dest count i ∧ routeScan routes dest count =
      ⟨(routes i).gateway, (routes i).netmask, (routes i).metric⟩ := by
  induction count with
  | zero => exact .inl ⟨fun i below => absurd below (Nat.not_lt_zero i), rfl⟩
  | succ count ih =>
      have last : routeScan routes dest (count + 1) =
          routeConsider routes dest (routeScan routes dest count) count := by
        rw [routeScan, List.range_succ, List.foldl_append]
        rfl
      rw [last, routeConsider]
      by_cases fits : (routes count).Matches dest
      · rw [if_pos fits]
        have used := fits.1
        rcases ih with ⟨none, is⟩ | ⟨i, best, is⟩
        · have metric := (proper count used).2.2
          rw [is]
          dsimp only
          rw [if_pos (Nat.zero_le _), if_pos (.inr metric)]
          refine .inr ⟨count, ⟨Nat.lt_succ_self count, fits, fun j below isMatch better => ?_,
            fun j below isMatch => absurd isMatch (none j below)⟩, rfl⟩
          rcases Nat.lt_succ_iff_lt_or_eq.mp below with early | rfl
          · exact none j early isMatch
          · rcases better with longer | ⟨-, smaller⟩
            · exact Nat.lt_irrefl _ longer
            · exact Nat.lt_irrefl _ smaller
        · have usedBest := best.hits.1
          have longer := proper.mask_lt usedBest used
          have shorter := proper.mask_lt used usedBest
          rw [is]
          dsimp only
          by_cases better : Better (routes count) (routes i)
          · -- The new route is the best of all: the old one was at least as good as the others.
            have isNew : (routes i).netmask ≤ (routes count).netmask ∧
                ((routes i).netmask < (routes count).netmask ∨
                  (routes count).metric < (routes i).metric) := by
              rw [Better] at better
              omega
            rw [if_pos isNew.1, if_pos isNew.2]
            refine .inr ⟨count, ⟨Nat.lt_succ_self count, fits, fun j below isMatch beats => ?_,
              fun j below isMatch => ?_⟩, rfl⟩
            · rcases Nat.lt_succ_iff_lt_or_eq.mp below with early | rfl
              · have unbeaten := best.unbeaten j early isMatch
                rw [Better] at unbeaten better beats
                omega
              · rw [Better] at beats
                omega
            · have unbeaten := best.unbeaten j below isMatch
              rw [Better] at unbeaten better ⊢
              omega
          · have stays : (if (routes i).netmask ≤ (routes count).netmask then
                if (routes i).netmask < (routes count).netmask ∨
                    (routes count).metric < (routes i).metric then
                  (⟨(routes count).gateway, (routes count).netmask, (routes count).metric⟩ : BestRoute)
                else ⟨(routes i).gateway, (routes i).netmask, (routes i).metric⟩
              else ⟨(routes i).gateway, (routes i).netmask, (routes i).metric⟩) =
                ⟨(routes i).gateway, (routes i).netmask, (routes i).metric⟩ := by
              rw [Better] at better
              split
              · rw [if_neg (by omega)]
              · rfl
            rw [stays]
            refine .inr ⟨i, ⟨Nat.lt_succ_of_lt best.inside, best.hits, fun j below isMatch => ?_,
              best.first⟩, rfl⟩
            rcases Nat.lt_succ_iff_lt_or_eq.mp below with early | rfl
            · exact best.unbeaten j early isMatch
            · exact better
      · rw [if_neg fits]
        rcases ih with ⟨none, is⟩ | ⟨i, best, is⟩
        · refine .inl ⟨fun j below => ?_, is⟩
          rcases Nat.lt_succ_iff_lt_or_eq.mp below with early | rfl
          · exact none j early
          · exact fits
        · refine .inr ⟨i, ⟨Nat.lt_succ_of_lt best.inside, best.hits, fun j below isMatch => ?_,
            best.first⟩, is⟩
          rcases Nat.lt_succ_iff_lt_or_eq.mp below with early | rfl
          · exact best.unbeaten j early isMatch
          · exact absurd isMatch fits

/-- A lookup gives the gateway of the best route that matches, and 0 if none does. -/
theorem route_lookup_best {calls : List RouteCall} (fits : ∀ call ∈ calls, call.Proper)
    (dest : Nat) :
    ((∀ i < maxRoutes, ¬ ((routeRun calls) i).Matches dest) → routeLookup (routeRun calls) dest = 0) ∧
    ((∃ i < maxRoutes, ((routeRun calls) i).Matches dest) → ∃ i,
      BestMatch (routeRun calls) dest maxRoutes i ∧
        routeLookup (routeRun calls) dest = ((routeRun calls) i).gateway) := by
  rcases (routeRun_proper fits).scan dest maxRoutes with ⟨none, is⟩ | ⟨i, best, is⟩
  · constructor
    · intro _
      rw [routeLookup, is]
    · rintro ⟨i, below, isMatch⟩
      exact absurd isMatch (none i below)
  · refine ⟨fun none => absurd best.hits (none i best.inside), fun _ => ⟨i, best, ?_⟩⟩
    rw [routeLookup, is]

theorem route_lookup_best_default :
    ∃ i, BestMatch (routeRun [.add 0 0 9 1, .add 10 (prefixMask 32) 7 5]) 10 maxRoutes i ∧
      routeLookup (routeRun [.add 0 0 9 1, .add 10 (prefixMask 32) 7 5]) 10 =
        ((routeRun [.add 0 0 9 1, .add 10 (prefixMask 32) 7 5]) i).gateway := by
  refine (route_lookup_best (fun call member => ?_) 10).2 ⟨0, by decide, by decide⟩
  rcases List.mem_cons.mp member with rfl | member
  · exact ⟨⟨0, by decide, by decide⟩, by decide⟩
  · rcases List.mem_cons.mp member with rfl | none
    · exact ⟨⟨32, by decide, rfl⟩, by decide⟩
    · cases none

end ZurichOS
