import Tenured.Proofs.Generation.Consistency
import Tenured.Proofs.Generation.Underway

/-!
# Blocks handed out while a generation grows

Growth holds the lock of a generation, but blocks are handed out without it. `Interleaved` is what
becomes of a generation if blocks are handed out at any points between a commit and the updates that
follow it.

* `Run.interleaved`: this covers every run, because whatever an operation does is commits with their
  updates, blocks handed out, releases and the keeping of books.
* `Interleaved.holds`: the parts are following a commit at every point, and the blocks are tiled.
* `Interleaved.resync`: so at every point a block can be handed out where both side tables cover it,
  no update that is left overwrites a block, and every address of a block is looked up to it.
-/

namespace Tenured.Generation

open Tenured.Action
open Object (wordSize minWords)

/-- What becomes of a generation by steps of growth with blocks handed out in between: the updates
that are left, the blocks handed out, and the generation. Only one thread has the growth lock, so a
commit or a release waits until no update is left. -/
inductive Interleaved (g₀ : Generation) : List Update → List Object → Generation → Prop
  | start : Interleaved g₀ [] [] g₀
  | commit {us : List Update} {out : List Object} {g : Generation} {bytes : Nat} {b : Backing}
    (h : Interleaved g₀ [] out g) (hc : g.backing.commit bytes = (true, b))
    (hf : g.followUps b = .ok us) : Interleaved g₀ us out { g with backing := b }
  | update {u : Update} {us : List Update} {out : List Object} {g g' : Generation}
    (h : Interleaved g₀ (u :: us) out g) (hu : u.apply g = .ok () g') : Interleaved g₀ us out g'
  | release {out : List Object} {g g' : Generation} {bytes : Nat} (h : Interleaved g₀ [] out g)
    (hb : giveBack g.guard bytes g = .ok () g') : Interleaved g₀ [] out g'
  | handOut {us : List Update} {out : List Object} {g g' : Generation} {words : Nat}
    {r : Option Nat} (h : Interleaved g₀ us out g) (hr : handOut words g = .ok r g') :
    Interleaved g₀ us (out ++ blockAt words r) g'
  | touchAhead {us : List Update} {out : List Object} {g g' : Generation} {addr words : Nat}
    (h : Interleaved g₀ us out g) (ht : touchAhead addr words g = .ok () g') :
    Interleaved g₀ us out g'
  | store {us : List Update} {out : List Object} {g : Generation} {o : Object} {addr : Nat}
    (h : Interleaved g₀ us out g) (ho : o ∈ out) (hlow : o.addr + wordSize ≤ addr)
    (hhigh : addr + wordSize ≤ o.addr + o.size) (w : Nat) :
    Interleaved g₀ us out { g with memory := g.memory.store addr w }
  | books {us : List Update} {out : List Object} {g g' : Generation}
    (h : Interleaved g₀ us out g) (ha : Alike g g') : Interleaved g₀ us out g'

variable {g₀ g g' g'' : Generation} {old : Region} {out out' : List Object} {us : List Update}
  {words : Nat}

/-! ## What holds at every point -/

/-- At every point the parts are following a commit, and the blocks handed out so far are tiled. -/
theorem Interleaved.holds (h : Interleaved g₀ us out g) (h₀ : InLine g₀ old)
    (ht₀ : Tiled g₀ []) :
    ∃ region, Underway g region us ∧ Tiled g out ∧ g.setup = g₀.setup := by
  -- only a commit and the updates after it change what is left to do
  induction h with
  | start => exact ⟨old, h₀.underway, ht₀, rfl⟩
  | commit _ hc hf ih =>
    obtain ⟨region, hu, ht, hs⟩ := ih
    obtain ⟨region', hu', hs'⟩ := hu.inLine.commit_underway hc hf
    exact ⟨region', hu', ⟨ht.tiles, ht.headers, ht.records⟩, hs'.trans hs⟩
  | update _ hu ih =>
    obtain ⟨region, h, ht, hs⟩ := ih
    have hp := h.apply_ends.of_ok hu
    exact ⟨region, hp.underway, hp.tiled ht, hp.setup_eq.trans hs⟩
  | release _ hb ih =>
    obtain ⟨region, h, ht, hs⟩ := ih
    have hc := ((giveBack_ends h.inLine).of_ok hb).changes
    obtain ⟨region', hin⟩ := hc.inLine h.inLine
    have ht := hc.tiled h.inLine ht
    rw [List.append_nil] at ht
    exact ⟨region', hin.underway, ht, hc.setup_eq.trans hs⟩
  | handOut _ hr ih =>
    obtain ⟨region, h, ht, hs⟩ := ih
    have ho := (handOut_ends h.within).of_ok hr
    exact ⟨region, ho.stays.underway h (ho.within h.within), ho.tiled h.within ht,
      ho.stays.setup_eq.trans hs⟩
  | touchAhead _ ht ih =>
    obtain ⟨region, h, hto, hs⟩ := ih
    have ht := (touchAhead_ends h.within).of_ok ht
    exact ⟨region, ht.stays.underway h (ht.within h.within), hto.touchedAhead h.within ht,
      ht.setup_eq.trans hs⟩
  | store _ ho hlow hhigh w ih =>
    obtain ⟨region, h, ht, hs⟩ := ih
    exact ⟨region, (Stays.store _ _ w).underway h (h.within.store _ w),
      ht.store h.within ho hlow hhigh w, hs⟩
  | books _ ha ih =>
    obtain ⟨region, h, ht, hs⟩ := ih
    exact ⟨region, ha.stays.underway h (ha.within h.within),
      ht.of_keeps h.within ha.keeps ha.stays.bottom_eq (by rw [ha.objects_eq])
        (ha.crossings_eq ▸ ht.records), ha.setup_eq.trans hs⟩

/-! ## Every operation consists of such steps -/

/-- Steps that hand out these blocks lead from one generation to the other. -/
def Steps (g : Generation) (out : List Object) (g' : Generation) : Prop :=
  ∀ g₀ out₀, Interleaved g₀ [] out₀ g → Interleaved g₀ [] (out₀ ++ out) g'

theorem Steps.refl (g : Generation) : Steps g [] g := by
  intro g₀ out₀ h
  rwa [List.append_nil]

theorem Steps.trans (h : Steps g out g') (h' : Steps g' out' g'') : Steps g (out ++ out') g'' := by
  intro g₀ out₀ h₀
  rw [← List.append_assoc]
  exact h' _ _ (h _ _ h₀)

theorem Alike.steps (ha : Alike g g') : Steps g [] g' := by
  intro g₀ out₀ h
  rw [List.append_nil]
  exact h.books ha

/-- An action that ends with a result is made of steps, which hand out these blocks. -/
abbrev Goes {α : Type} (x : Action α) (g : Generation) (f : α → List Object) : Prop :=
  Ends x g (fun a g' => Steps g (f a) g') fun _ _ => True

section Goes

variable {α β : Type} {x : Action α} {y : α → Action β} {f : β → List Object}

theorem Goes.then (hx : Goes x g fun _ => []) (hy : ∀ a g', Goes (y a) g' f) :
    Goes (x >>= y) g f :=
  ends_bind.2 (hx.imp fun a g' h => (hy a g').imp fun _ _ h' => h.trans h')

theorem Goes.discard (hx : Goes x g fun _ => []) : Goes (discard x) g fun _ => [] :=
  ends_discard.2 hx

/-- What is read from a generation does not change it. -/
theorem ends_lift_bind {r : Except Fault α} {Q : β → Generation → Prop}
    (hy : ∀ a, r = .ok a → Ends (y a) g Q fun _ _ => True) :
    Ends (liftM r >>= y) g Q fun _ _ => True :=
  ends_bind.2 (ends_lift.2 ⟨hy, fun _ _ => trivial⟩)

/-- What an action is known to end in, if it ends with a result. -/
theorem ends_eq : Ends x g (fun a g' => x g = .ok a g') fun _ _ => True := by
  unfold Ends
  split
  · assumption
  · trivial

end Goes

theorem goes_checkGuard {guard : Guard} : Goes (checkGuard guard) g fun _ => [] :=
  ends_bind.2 (ends_get.2 (ends_lift.2 ⟨fun _ _ => .refl g, fun _ _ => trivial⟩))

theorem goes_write {level : Level} {text : String} : Goes (write level text) g fun _ => [] :=
  write_ends.imp fun _ _ h => h.steps

theorem goes_emit {e : Event} : Goes (emit e) g fun _ => [] :=
  emit_ends.imp fun _ _ h => h.steps

theorem goes_publishCapacity : Goes publishCapacity g fun _ => [] := by
  refine ends_bind.2 (ends_get.2 (ends_ite.2 ⟨fun _ => ?_, fun _ => .refl g⟩))
  exact ends_lift_bind fun _ _ => ends_set.2 (Alike.steps ⟨rfl, rfl, rfl, rfl, rfl, rfl, rfl⟩)

theorem goes_modify {f : Generation → Generation} (hf : ∀ g, Alike g (f g)) :
    Goes (modify f) g fun _ => [] :=
  ends_modify.2 (hf g).steps

/-! ### Growth and release -/

/-- All updates that are left, one after another. -/
theorem ends_updates : Ends (us.forM Update.apply) g
    (fun _ g' => ∀ g₀ out, Interleaved g₀ us out g → Interleaved g₀ [] out g')
    fun _ _ => True := by
  induction us generalizing g with
  | nil => exact ends_pure.2 fun _ _ h => h
  | cons u us ih =>
    refine ends_forM_cons.2 (ends_eq.imp fun _ g₁ hu => ?_)
    exact ih.imp fun _ _ h g₀ out hi => h g₀ out (hi.update hu)

/-- The updates that bring all parts in line, and the books that are kept after them. -/
theorem ends_settle {x : Action Unit} (hx : ∀ g', Goes x g' fun _ => []) :
    Ends (do settle true; x) g (fun _ g' => ∃ region, g.backing.committedPart = .ok region ∧
      ∀ g₀ out, Interleaved g₀ (updates region g.config.touchCommitted) out g →
        Interleaved g₀ [] out g') fun _ _ => True := by
  refine ends_bind.2 (ends_bind.2 (ends_get.2 (ends_lift_bind fun region hr => ?_)))
  refine ends_lift_bind fun _ _ => ends_updates.imp fun _ g₁ h₁ => ?_
  refine (hx g₁).imp fun _ g₂ h₂ => ⟨region, hr, fun g₀ out hi => ?_⟩
  have := h₂ g₀ out (h₁ g₀ out hi)
  rwa [List.append_nil] at this

/-- Mangling changes nothing but the memory. -/
theorem eq_of_mangle {fresh : Region} (h : Update.apply (.mangle fresh) g = .ok () g') :
    ∃ memory, g' = { g with memory } := by
  have hends : Ends (Update.apply (.mangle fresh)) g (fun _ g' => ∃ memory, g' = { g with memory })
      fun _ _ => True :=
    ends_bind.2 (ends_get.2 (ends_lift_bind fun _ _ => ends_lift_bind fun memory _ =>
      ends_set.2 ⟨memory, rfl⟩))
  exact hends.of_ok h

/-- The updates after a granted commit are those that have to follow it. -/
theorem ends_settleGrowth {bytes : Nat} {b : Backing} (hc : g.backing.commit bytes = (true, b)) :
    Ends (settleGrowth g.backing.high) { g with backing := b } (fun _ g' => Steps g [] g')
      fun _ _ => True := by
  have hbooks : ∀ f text e, (∀ g, Alike g (f g)) → ∀ g',
      Goes (do publishCapacity; modify f; write .debug text; emit e) g' fun _ => [] :=
    fun f text e hf g' => goes_publishCapacity.then fun _ _ => (goes_modify hf).then fun _ _ =>
      goes_write.then fun _ _ => goes_emit
  have hle : g.backing.high ≤ b.high := (Backing.of_commit_true hc).2 ▸ Nat.le_add_right ..
  have hfresh : Region.ofBounds g.backing.high b.high = .ok ⟨g.backing.high, b.high, hle⟩ :=
    Region.ofBounds_eq_ok_iff.2 ⟨rfl, rfl⟩
  unfold settleGrowth
  refine ends_bind.2 (ends_get.2 ?_)
  dsimp only
  refine ends_ite.2 ⟨fun hm => ?_, fun hm => ?_⟩
  · refine ends_bind.2 ((ends_lift_of_eq hfresh).2 (ends_bind.2 (ends_eq.imp fun _ g₁ hu => ?_)))
    obtain ⟨memory, rfl⟩ := eq_of_mangle hu
    refine (ends_settle (hbooks _ _ _ ?_)).imp fun _ g₂ h₂ g₀ out hi => ?_
    · exact fun _ => ⟨rfl, rfl, rfl, rfl, rfl, rfl, rfl⟩
    · obtain ⟨region, hr, h₂⟩ := h₂
      have hf : g.followUps b = .ok (.mangle ⟨g.backing.high, b.high, hle⟩ ::
          updates region g.config.touchCommitted) := by
        rw [followUps_eq hfresh hr, if_pos hm]; rfl
      rw [List.append_nil]
      exact h₂ g₀ out ((hi.commit hc hf).update hu)
  · refine (ends_settle (hbooks _ _ _ ?_)).imp fun _ g₂ h₂ g₀ out hi => ?_
    · exact fun _ => ⟨rfl, rfl, rfl, rfl, rfl, rfl, rfl⟩
    · obtain ⟨region, hr, h₂⟩ := h₂
      have hf : g.followUps b = .ok (updates region g.config.touchCommitted) := by
        rw [followUps_eq hfresh hr, if_neg hm]; rfl
      rw [List.append_nil]
      exact h₂ g₀ out (hi.commit hc hf)

/-- A commit that is refused is only counted. -/
theorem alike_of_refused {bytes : Nat} {b : Backing} (hc : g.backing.commit bytes = (false, b)) :
    Alike g { g with backing := b } := by
  obtain rfl := Backing.commit_eq_false hc
  exact ⟨rfl, rfl, rfl, rfl, rfl, rfl, rfl⟩

theorem goes_growBy {guard : Guard} {bytes : Nat} : Goes (growBy guard bytes) g fun _ => [] := by
  refine goes_checkGuard.then fun _ g₁ => ends_ite.2 ⟨fun _ => .refl g₁, fun _ => ?_⟩
  refine ends_bind.2 (ends_get.2 ?_)
  rcases hc : g₁.backing.commit bytes with ⟨_ | _, b⟩
  · exact ends_bind.2 (ends_set.2 (alike_of_refused hc).steps)
  · exact ends_bind.2 (ends_set.2 (ends_bind.2 (ends_settleGrowth hc)))

theorem goes_growFully {guard : Guard} : Goes (growFully guard) g fun _ => [] := by
  refine goes_checkGuard.then fun _ g₁ => ends_bind.2 (ends_get.2 ?_)
  refine ends_lift_bind fun remaining _ => ends_ite.2 ⟨fun _ => .refl g₁, fun _ => ?_⟩
  rcases hc : g₁.backing.commit remaining with ⟨_ | _, b⟩
  · refine ends_bind.2 (ends_set.2 ?_)
    have hrest : Goes (do
        write .warn s!"{g₁.name}: grow to reserve failed"
        emit (.growthFailed g₁.name remaining g₁.backing.committed (← g₁.backing.reserved))
        return false) { g₁ with backing := b } fun _ => [] :=
      goes_write.then fun _ _ => ends_lift_bind fun _ _ => goes_emit.then fun _ g₂ => .refl g₂
    exact hrest.imp fun _ _ h => (alike_of_refused hc).steps.trans h
  · exact ends_bind.2 (ends_set.2 (ends_bind.2 (ends_settleGrowth hc)))

theorem goes_giveBack {bytes : Nat} : Goes (giveBack g.guard bytes) g fun _ => [] :=
  ends_eq.imp fun _ _ hb _ _ h => by rw [List.append_nil]; exact h.release hb

/-- One commit after another is asked for until one is granted. -/
theorem goes_growBy_or {guard : Guard} {bytes : Nat} {x : Action Bool}
    (hx : ∀ g', Goes x g' fun _ => []) :
    Goes (do
      if ← growBy guard bytes then return true
      x) g fun _ => [] :=
  goes_growBy.then fun _ g₁ => ends_ite.2 ⟨fun _ => .refl g₁, fun _ => hx g₁⟩

theorem goes_grow {guard : Guard} {bytes : Nat} : Goes (grow guard bytes) g fun _ => [] := by
  have hfully : ∀ g', Goes (do
      if ← growFully guard then return true
      modify fun g => { g with totals := g.totals.recordFailure }
      return false) g' fun _ => [] := by
    refine fun g' => goes_growFully.then fun _ g₁ => ends_ite.2 ⟨fun _ => .refl g₁, fun _ => ?_⟩
    refine (goes_modify fun g => ?_).then fun _ g₂ => .refl g₂
    exact ⟨rfl, rfl, rfl, rfl, rfl, rfl, rfl⟩
  refine goes_checkGuard.then fun _ g₁ => ends_bind.2 (ends_get.2 ?_)
  refine ends_lift_bind fun step _ => ends_lift_bind fun request _ => ?_
  refine ends_ite.2 ⟨fun _ => goes_growBy_or fun _ => ?_, fun _ => ?_⟩
  · exact goes_growBy_or hfully
  · exact goes_growBy_or hfully

theorem goes_resize {desiredFree : Nat} : Goes (resize desiredFree) g fun _ => [] := by
  have hreport : ∀ (text : Nat → String) (e : Nat → Event) g', Goes (do
      let capacity ← (← get).capacity
      write .trace (text capacity)
      emit (e capacity)) g' fun _ => [] :=
    fun text e g' => ends_bind.2 (ends_get.2 (ends_lift_bind fun _ _ =>
      goes_write.then fun _ _ => goes_emit))
  refine ends_bind.2 (ends_get.2 (ends_lift_bind fun used _ => ends_lift_bind fun capacity _ => ?_))
  refine ends_lift_bind fun target _ => ?_
  refine ends_bind.2 (write_ends.imp fun _ g₁ h₁ => ends_bind.2 (emit_ends.imp fun _ g₂ h₂ => ?_))
  have ha := h₁.trans h₂
  dsimp only
  refine ends_ite.2 ⟨fun _ => ha.steps, fun _ => ends_ite.2 ⟨fun _ => ?_, fun _ => ?_⟩⟩
  · exact (goes_grow.discard.then fun _ g₃ => hreport _ _ g₃).imp fun _ _ h => ha.steps.trans h
  · rw [← ha.guard_eq]
    exact (goes_giveBack.then fun _ g₃ => hreport _ _ g₃).imp fun _ _ h => ha.steps.trans h

/-! ### Allocation -/

theorem goes_handOut : Goes (handOut words) g fun r => blockAt words r :=
  ends_eq.imp fun _ _ hr _ _ h => h.handOut hr

theorem goes_makeRoom : Goes (makeRoom words) g fun _ => [] :=
  ends_lift_bind fun _ _ => ends_bind.2 (ends_get.2 (ends_ite.2 ⟨fun _ => goes_grow,
    fun _ => .refl g⟩))

theorem goes_allocateWithin {tries : Nat} :
    Goes (allocateWithin words tries) g fun r => blockAt words r.toOption := by
  induction tries generalizing g with
  | zero => exact ends_bind.2 (ends_get.2 (.refl g))
  | succ tries ih =>
    refine ends_bind.2 (goes_handOut.imp fun r g₁ h₁ => ?_)
    cases r with
    | some addr => exact h₁
    | none =>
      have hnext : Goes (do
          if ← makeRoom words then allocateWithin words tries
          else return .error (outOfMemory words (← get))) g₁ fun r => blockAt words r.toOption :=
        goes_makeRoom.then fun _ g₂ => ends_ite.2 ⟨fun _ => ih, fun _ => .refl g₂⟩
      exact hnext.imp fun _ _ h => h₁.trans h

theorem goes_allocate : Goes (allocate words) g fun r => blockAt words r.toOption :=
  ends_ite.2 ⟨fun _ => .refl g, fun _ => ends_bind.2 (ends_get.2 goes_allocateWithin)⟩

theorem goes_growAndHandOut : Goes (growAndHandOut words) g fun r => blockAt words r :=
  ends_bind.2 (ends_get.2 (goes_grow.discard.then fun _ _ => goes_handOut))

theorem Operation.goes (op : Operation) : Goes op.run g fun out => out := by
  cases op with
  | allocate words => exact ends_bind.2 goes_allocate
  | handOut words => exact ends_bind.2 goes_handOut
  | growAndHandOut words => exact ends_bind.2 goes_growAndHandOut
  | makeRoom words =>
    exact goes_makeRoom.discard.then fun _ g₁ => .refl g₁
  | touchAhead addr words =>
    have htouch : Goes (Generation.touchAhead addr words) g fun _ => [] :=
      ends_eq.imp fun _ _ ht _ _ h => by rw [List.append_nil]; exact h.touchAhead ht
    exact htouch.then fun _ g₁ => .refl g₁
  | resize desiredFree => exact goes_resize.then fun _ g₁ => .refl g₁
  | grow bytes =>
    exact ends_bind.2 (ends_get.2 (goes_grow.discard.then fun _ g₁ => .refl g₁))
  | growBy bytes =>
    exact ends_bind.2 (ends_get.2 (goes_growBy.discard.then fun _ g₁ => .refl g₁))
  | growFully =>
    exact ends_bind.2 (ends_get.2 (goes_growFully.discard.then fun _ g₁ => .refl g₁))
  | giveBack bytes => exact ends_bind.2 (ends_get.2 (goes_giveBack.then fun _ g₁ => .refl g₁))

/-- A run is what becomes of a generation if no block happens to be handed out between two
updates. -/
theorem Run.interleaved {ops : List Operation} (h : Run g₀ ops out g) :
    Interleaved g₀ [] out g := by
  induction h with
  | start => exact .start
  | call _ hr ih => exact ((Operation.goes _).of_ok hr) _ _ ih
  | store _ ho hlow hhigh w ih => exact ih.store ho hlow hhigh w

/-! ## From a new generation on -/

/-- Every operation, growth of whatever kind among them, consists of steps between which blocks can
be handed out. At every point, and whatever was handed out before: a request for a block that an
object can have is met without a fault, and the block lies in what both side tables cover; the next
update can be done, unless memory cannot be touched, and leaves every word of every block as it is;
every address of every block is looked up to it, and the cursor has not passed the end. -/
theorem Interleaved.resync {sys : AddressSpace} {s : Setting} {c : Config} {name : String}
    {level id : Nat} (hc : (create sys s c name level id).outcome = .result g₀)
    (hi : Interleaved g₀ us out g) :
    (us = [] → ∀ (op : Operation) out' g', op.run g = .ok out' g' →
      Interleaved g₀ [] (out ++ out') g') ∧
    (∀ words, minWords ≤ words → ∃ r g', Generation.handOut words g = .ok r g' ∧
      ∀ o ∈ blockAt words r,
        (g.cards.covered.start ≤ o.addr ∧ o.addr + o.size ≤ g.cards.covered.stop) ∧
        g.crossings.covered.start ≤ o.addr ∧ o.addr + o.size ≤ g.crossings.covered.stop) ∧
    (∀ u us', us = u :: us' → (g.setup.CanGrow → ∃ g', u.apply g = .ok () g') ∧
      ∀ g', u.apply g = .ok () g' → ∀ o ∈ out, ∀ addr, o.addr ≤ addr →
        addr + wordSize ≤ o.addr + o.size → g'.memory.load addr = g.memory.load addr) ∧
    (∀ o ∈ out, ∀ addr, o.Holds addr → g.startOf addr = .ok o.addr) ∧
    g.cursor.next ≤ g.objects.stop := by
  obtain ⟨region₀, hnew⟩ := create_new hc
  obtain ⟨region, h, ht, hs⟩ := hi.holds hnew.toInLine hnew.tiled
  have hw := h.within
  refine ⟨?_, fun words hmin => ?_, ?_, fun o ho addr hh => ?_, hw.cursor_le⟩
  · rintro rfl op out' g' hop
    exact (op.goes.of_ok hop) _ _ hi
  · have hends : Ends (Generation.handOut words) g (HandsOut g words) fun _ _ => False :=
      (handOut_ends hw).mono (fun _ _ ho => ho) fun _ _ he => absurd he.2 (Nat.not_lt.2 hmin)
    obtain ⟨r, g', hr, ho⟩ := hends.exists_ok
    exact ⟨r, g', hr, fun o hmem => ho.covered hw hmem⟩
  · rintro u us' rfl
    refine ⟨fun hg => ?_, fun g' hu o ho addr hlow hhigh => ?_⟩
    · obtain ⟨_, g', hu, -⟩ := (h.apply_ends.mono (fun _ _ hp => hp) fun _ _ he => he hg).exists_ok
      exact ⟨g', hu⟩
    · exact (h.apply_ends.of_ok hu).keeps.load_eq hw.dvd_top
        (Nat.le_trans hhigh (ht.tiles.bounds ho).2)
  · have hb := ht.tiles.bounds ho
    obtain ⟨o', ho', hh', hf⟩ :=
      ht.lookUp hw (Nat.le_trans hb.1 hh.1) (Nat.lt_of_lt_of_le hh.2 hb.2)
    obtain rfl := ht.tiles.eq_of_holds ho' ho hh' hh
    have hown : g.setup.Own := hs ▸ hnew.own
    rw [startOf, show g.lookup = .byCrossings from hown.lookup_eq]
    exact hf

/-- A block before a commit and one between it and the mangling of the new memory. -/
theorem Interleaved.resync_small : ∃ g₀ us out g,
    (create (.ofBase 65536) ⟨⟨0, 1, 1⟩, {}, {}⟩ { smallConfig with mangleUnused := true }
      "small" 1 0).outcome = .result g₀ ∧ Interleaved g₀ us out g ∧ us.length = 6 ∧
    out = [⟨65536, 16⟩, ⟨65552, 24⟩] ∧ (∃ r g', Generation.handOut 2 g = .ok r g') ∧
    g.startOf 65560 = .ok 65552 := by
  have hrun : ∃ g₀, (create (.ofBase 65536) ⟨⟨0, 1, 1⟩, {}, {}⟩
      { smallConfig with mangleUnused := true } "small" 1 0).outcome = .result g₀ ∧
      ∃ g₁, Generation.handOut 2 g₀ = .ok (some 65536) g₁ ∧
      ∃ b, g₁.backing.commit 4096 = (true, b) ∧ ∃ us, g₁.followUps b = .ok us ∧ us.length = 6 ∧
      ∃ g₂, Generation.handOut 3 { g₁ with backing := b } = .ok (some 65552) g₂ :=
    ⟨_, rfl, _, rfl, _, rfl, _, rfl, rfl, _, rfl⟩
  obtain ⟨g₀, hc, g₁, h₁, b, hb, us, hf, hlen, g₂, h₂⟩ := hrun
  have hi := ((Interleaved.start.handOut h₁).commit hb hf).handOut h₂
  obtain ⟨-, hout, -, hfind, -⟩ := Interleaved.resync hc hi
  obtain ⟨r, g', hr, -⟩ := hout 2 (by decide)
  refine ⟨g₀, us, _, g₂, hc, hi, hlen, rfl, ⟨r, g', hr⟩, ?_⟩
  exact hfind ⟨65552, 24⟩ (.tail _ (.head _)) 65560 ⟨by decide, by decide⟩

end Tenured.Generation
