import Tenured.Proofs.Generation.Interleaving

/-!
# The calls that operations are made of

An operation does its work by calls of a few kinds: a block is handed out or memory touched ahead of
it, the generation grows or gives memory back, and what a resize does is reported. `Called g c g'`
says that the call `c` leads from `g` to `g'`, and `Calls` that calls do one after another. A call
names its arguments and its result, so it says what was asked and what came of it.

* `Operation.calls`: every operation is made of calls, and allocation and growth only of those that
  do not lower the end.
* `Run.calls`: so is every run, with the stores in between.
* `Called.effect`: what a call changes.
-/

namespace Tenured

namespace Event

/-- Whether an event says that the committed size grew. -/
def isGrowth : Event → Bool
  | grown .. => true
  | _ => false

/-- Whether an event says that the committed size shrank. -/
def isRelease : Event → Bool
  | shrunk .. => true
  | _ => false

end Event

namespace Generation

open Tenured.Action
open Object (wordSize)

/-- What is asked of a generation in one piece, and its result. -/
inductive Call
  | handOut (words : Nat) (addr : Option Nat)
  | touchAhead (addr words : Nat)
  | grow (bytes : Nat) (granted : Bool)
  | growBy (bytes : Nat) (granted : Bool)
  | growFully (granted : Bool)
  | giveBack (bytes : Nat)
  | write (level : Level) (text : String)
  | emit (e : Event)
  | store (addr w : Nat)
deriving DecidableEq

namespace Call

/-- The blocks that a call hands out. -/
def blocks : Call → List Object
  | handOut words addr => blockAt words addr
  | _ => []

/-- Whether a call leaves the end where it is or raises it, and touches memory at the top only. -/
def Raises : Call → Prop
  | touchAhead .. | giveBack _ | store .. => False
  | _ => True

end Call

/-- A call leads from one generation to another. Events that tell of growth and release are reported
within the calls that grow and release, and not by calls of their own. -/
inductive Called (g : Generation) : Call → Generation → Prop
  | handOut {words : Nat} {r : Option Nat} {g' : Generation}
    (h : Generation.handOut words g = .ok r g') : Called g (.handOut words r) g'
  | touchAhead {addr words : Nat} {g' : Generation}
    (h : Generation.touchAhead addr words g = .ok () g') : Called g (.touchAhead addr words) g'
  | grow {bytes : Nat} {granted : Bool} {g' : Generation}
    (h : Generation.grow g.guard bytes g = .ok granted g') : Called g (.grow bytes granted) g'
  | growBy {bytes : Nat} {granted : Bool} {g' : Generation}
    (h : Generation.growBy g.guard bytes g = .ok granted g') : Called g (.growBy bytes granted) g'
  | growFully {granted : Bool} {g' : Generation}
    (h : Generation.growFully g.guard g = .ok granted g') : Called g (.growFully granted) g'
  | giveBack {bytes : Nat} {g' : Generation}
    (h : Generation.giveBack g.guard bytes g = .ok () g') : Called g (.giveBack bytes) g'
  | write {level : Level} {text : String} {g' : Generation}
    (h : Generation.write level text g = .ok () g') : Called g (.write level text) g'
  | emit {e : Event} {g' : Generation} (hg : e.isGrowth = false) (hr : e.isRelease = false)
    (h : Generation.emit e g = .ok () g') : Called g (.emit e) g'
  | store (addr w : Nat) : Called g (.store addr w) { g with memory := g.memory.store addr w }

/-- Calls one after another. -/
inductive Calls (g₀ : Generation) : List Call → Generation → Prop
  | start : Calls g₀ [] g₀
  | tail {cs : List Call} {c : Call} {g g' : Generation} (h : Calls g₀ cs g) (hc : Called g c g') :
    Calls g₀ (cs ++ [c]) g'

variable {g g' g'' : Generation} {old region : Region} {c : Call} {cs cs' : List Call}
  {out out' : List Object} {p : Call → Prop} {words : Nat}

theorem Calls.trans (h : Calls g cs g') (h' : Calls g' cs' g'') : Calls g (cs ++ cs') g'' := by
  induction h' with
  | start => rwa [List.append_nil]
  | tail _ hc ih => rw [← List.append_assoc]; exact ih.tail hc

/-! ## Every operation is made of calls -/

/-- Calls of a kind lead from one generation to the other and hand out these blocks. -/
def Through (p : Call → Prop) (g : Generation) (out : List Object) (g' : Generation) : Prop :=
  ∃ cs, Calls g cs g' ∧ (∀ c ∈ cs, p c) ∧ cs.flatMap Call.blocks = out

namespace Through

theorem refl (g : Generation) : Through p g [] g :=
  ⟨[], .start, nofun, rfl⟩

theorem single (hc : Called g c g') (hp : p c) : Through p g c.blocks g' :=
  ⟨[c], .tail .start hc, fun _ h => List.mem_singleton.1 h ▸ hp, List.append_nil _⟩

theorem trans (h : Through p g out g') (h' : Through p g' out' g'') :
    Through p g (out ++ out') g'' := by
  obtain ⟨cs, hcs, hp, rfl⟩ := h
  obtain ⟨cs', hcs', hp', rfl⟩ := h'
  refine ⟨cs ++ cs', hcs.trans hcs', fun c hc => ?_, List.flatMap_append⟩
  exact (List.mem_append.1 hc).elim (hp c) (hp' c)

theorem mono {q : Call → Prop} (h : Through p g out g') (hpq : ∀ c, p c → q c) :
    Through q g out g' := by
  obtain ⟨cs, hcs, hp, ho⟩ := h
  exact ⟨cs, hcs, fun c hc => hpq c (hp c hc), ho⟩

end Through

/-- An action that ends with a result is made of calls of a kind, which hand out these blocks. -/
abbrev Makes {α : Type} (p : Call → Prop) (x : Action α) (g : Generation) (f : α → List Object) :
    Prop :=
  Ends x g (fun a g' => Through p g (f a) g') fun _ _ => True

section Makes

variable {α β : Type} {x : Action α} {y : α → Action β} {f : β → List Object}

theorem Makes.then (hx : Makes p x g fun _ => []) (hy : ∀ a g', Makes p (y a) g' f) :
    Makes p (x >>= y) g f :=
  ends_bind.2 (hx.imp fun a g' h => (hy a g').imp fun _ _ h' => h.trans h')

theorem Makes.discard (hx : Makes p x g fun _ => []) : Makes p (discard x) g fun _ => [] :=
  ends_discard.2 hx

end Makes

theorem makes_handOut : Makes Call.Raises (handOut words) g fun r => blockAt words r :=
  ends_eq.imp fun _ _ hr => .single (.handOut hr) trivial

theorem makes_grow {bytes : Nat} : Makes Call.Raises (grow g.guard bytes) g fun _ => [] :=
  ends_eq.imp fun _ _ hr => .single (.grow hr) trivial

theorem makes_makeRoom : Makes Call.Raises (makeRoom words) g fun _ => [] :=
  ends_lift_bind fun _ _ => ends_bind.2 (ends_get.2 (ends_ite.2 ⟨fun _ => makes_grow,
    fun _ => .refl g⟩))

/-- By induction on the tries that are left. -/
theorem makes_allocateWithin {tries : Nat} :
    Makes Call.Raises (allocateWithin words tries) g fun r => blockAt words r.toOption := by
  induction tries generalizing g with
  | zero => exact ends_bind.2 (ends_get.2 (.refl g))
  | succ tries ih =>
    refine ends_bind.2 (makes_handOut.imp fun r g₁ h₁ => ?_)
    cases r with
    | some addr => exact h₁
    | none =>
      have hnext : Makes Call.Raises (do
          if ← makeRoom words then allocateWithin words tries
          else return .error (outOfMemory words (← get))) g₁ fun r => blockAt words r.toOption :=
        makes_makeRoom.then fun _ g₂ => ends_ite.2 ⟨fun _ => ih, fun _ => .refl g₂⟩
      exact hnext.imp fun _ _ h => h₁.trans h

/-- A line and an event. -/
theorem makes_report {level : Level} {text : String} {e : Event} (hg : e.isGrowth = false)
    (hr : e.isRelease = false) :
    Makes (fun _ => True) (do write level text; emit e) g fun _ => [] := by
  have hwrite : Makes (fun _ => True) (write level text) g fun _ => [] :=
    ends_eq.imp fun _ _ h => .single (.write h) trivial
  exact hwrite.then fun _ _ => ends_eq.imp fun _ _ h => .single (.emit hg hr h) trivial

/-- A resize reports its aim, grows or gives back, and reports what came of it. -/
theorem makes_resize {desiredFree : Nat} :
    Makes (fun _ => True) (resize desiredFree) g fun _ => [] := by
  have hafter : ∀ (text : Nat → String) (e : Nat → Event),
      (∀ n, (e n).isGrowth = false ∧ (e n).isRelease = false) → ∀ g', Makes (fun _ => True) (do
        let capacity ← (← get).capacity
        write .trace (text capacity)
        emit (e capacity)) g' fun _ => [] :=
    fun text e he g' => ends_bind.2 (ends_get.2 (ends_lift_bind fun _ _ =>
      makes_report (he _).1 (he _).2))
  refine ends_bind.2 (ends_get.2 (ends_lift_bind fun used _ => ends_lift_bind fun capacity _ => ?_))
  refine ends_lift_bind fun target _ => ?_
  refine ends_bind.2 (ends_eq.imp fun _ g₁ h₁ => ends_bind.2 (ends_eq.imp fun _ g₂ h₂ => ?_))
  have haim : Through (fun _ => True) g [] g₂ :=
    (Through.single (.write h₁) trivial).trans (.single (.emit rfl rfl h₂) trivial)
  have hguard : g₂.guard = g.guard := by
    cases h₁
    cases h₂
    rfl
  dsimp only
  refine ends_ite.2 ⟨fun _ => haim, fun _ => ends_ite.2 ⟨fun _ => ?_, fun _ => ?_⟩⟩
  · rw [← hguard]
    have hgrow : Makes (fun _ => True) (grow g₂.guard (target - capacity)) g₂ fun _ => [] :=
      makes_grow.imp fun _ _ h => h.mono fun _ _ => trivial
    refine (hgrow.discard.then fun _ g₃ => hafter _ _ ?_ g₃).imp fun _ _ h => haim.trans h
    exact fun _ => ⟨rfl, rfl⟩
  · rw [← hguard]
    have hback : Makes (fun _ => True) (giveBack g₂.guard (capacity - target)) g₂ fun _ => [] :=
      ends_eq.imp fun _ _ h => .single (.giveBack h) trivial
    refine (hback.then fun _ g₃ => hafter _ _ ?_ g₃).imp fun _ _ h => haim.trans h
    exact fun _ => ⟨rfl, rfl⟩

/-- Allocation and growth of whatever kind: the operations that do not lower the end, and touch
memory at the top only. -/
def Operation.Raises : Operation → Prop
  | touchAhead .. | resize _ | giveBack _ => False
  | _ => True

theorem Operation.calls (op : Operation) :
    Makes (fun c => op.Raises → c.Raises) op.run g fun out => out := by
  have hraises : ∀ {x : Action (List Object)}, Makes Call.Raises x g (fun out => out) →
      Makes (fun c => op.Raises → c.Raises) x g fun out => out :=
    fun h => h.imp fun _ _ h => h.mono fun _ hc _ => hc
  cases op with
  | allocate words =>
    refine hraises (ends_bind.2 (ends_ite.2 ⟨fun _ => .refl g, fun _ => ends_bind.2 ?_⟩))
    exact ends_get.2 makes_allocateWithin
  | handOut words => exact hraises (ends_bind.2 makes_handOut)
  | growAndHandOut words =>
    exact hraises (ends_bind.2 (ends_bind.2 (ends_get.2 (makes_grow.discard.then fun _ _ =>
      makes_handOut))))
  | makeRoom words => exact hraises (makes_makeRoom.discard.then fun _ g₁ => .refl g₁)
  | touchAhead addr words =>
    have htouch : Makes (fun c => False → c.Raises) (Generation.touchAhead addr words) g
        fun _ => [] :=
      ends_eq.imp fun _ _ h => .single (.touchAhead h) nofun
    exact htouch.then fun _ g₁ => .refl g₁
  | resize desiredFree =>
    have hresize : Makes (fun c => False → c.Raises) (Generation.resize desiredFree) g
        fun _ => [] :=
      makes_resize.imp fun _ _ h => h.mono fun _ _ => nofun
    exact hresize.then fun _ g₁ => .refl g₁
  | grow bytes =>
    exact hraises (ends_bind.2 (ends_get.2 (makes_grow.discard.then fun _ g₁ => .refl g₁)))
  | growBy bytes =>
    have hgrow : Makes Call.Raises (Generation.growBy g.guard bytes) g fun _ => [] :=
      ends_eq.imp fun _ _ h => .single (.growBy h) trivial
    exact hraises (ends_bind.2 (ends_get.2 (hgrow.discard.then fun _ g₁ => .refl g₁)))
  | growFully =>
    have hgrow : Makes Call.Raises (Generation.growFully g.guard) g fun _ => [] :=
      ends_eq.imp fun _ _ h => .single (.growFully h) trivial
    exact hraises (ends_bind.2 (ends_get.2 (hgrow.discard.then fun _ g₁ => .refl g₁)))
  | giveBack bytes =>
    have hback : Makes (fun c => False → c.Raises) (Generation.giveBack g.guard bytes) g
        fun _ => [] :=
      ends_eq.imp fun _ _ h => .single (.giveBack h) nofun
    exact ends_bind.2 (ends_get.2 (hback.then fun _ g₁ => .refl g₁))

/-- Every run is made of calls, and they hand out its blocks. -/
theorem Run.calls {g₀ : Generation} {ops : List Operation} (h : Run g₀ ops out g) :
    ∃ cs, Calls g₀ cs g ∧ cs.flatMap Call.blocks = out := by
  induction h with
  | start => exact ⟨[], .start, rfl⟩
  | call _ hr ih =>
    obtain ⟨cs, hcs, rfl⟩ := ih
    obtain ⟨cs', hcs', -, rfl⟩ := (Operation.calls _).of_ok hr
    exact ⟨cs ++ cs', hcs.trans hcs', List.flatMap_append⟩
  | store _ _ _ _ w ih =>
    obtain ⟨cs, hcs, rfl⟩ := ih
    exact ⟨_, hcs.tail (.store _ w), by rw [List.flatMap_append]; exact List.append_nil _⟩

/-! ## What a call changes -/

/-- What becomes of the parts of a generation by a call. -/
inductive Effect (g : Generation) : Call → Generation → Prop
  | alike {c : Call} {g' : Generation} (h : Alike g g') (hb : c.blocks = []) : Effect g c g'
  | grown {c : Call} {region : Region} {g' : Generation} (h : Grown g region g')
    (hb : c.blocks = []) : Effect g c g'
  | shrunk {bytes : Nat} {region : Region} {g' : Generation} (h : Shrunk g region g') :
    Effect g (.giveBack bytes) g'
  | handedOut {words : Nat} {r : Option Nat} {g' : Generation} (h : HandsOut g words r g') :
    Effect g (.handOut words r) g'
  | touchedAhead {addr words : Nat} {g' : Generation}
    (h : TouchedAhead g addr (Word.mulSat words wordSize) g') : Effect g (.touchAhead addr words) g'
  | stored (addr w : Nat) : Effect g (.store addr w) { g with memory := g.memory.store addr w }

theorem Grows.effect {bytes : Nat} {granted : Bool} (h : Grows g bytes granted g')
    (hb : c.blocks = []) : Effect g c g' := by
  cases h with
  | nothing ha _ => exact .alike ha hb
  | grown hg _ => exact .grown hg hb
  | refused ha _ => exact .alike ha hb

theorem Asked.effect {bytes : Nat} {granted : Bool} (h : Asked g bytes granted g')
    (hb : c.blocks = []) : Effect g c g' := by
  cases h with
  | granted hg _ => exact .grown hg hb
  | refused ha _ => exact .alike ha hb

theorem Called.effect (hc : Called g c g') (h : InLine g old) : Effect g c g' := by
  cases hc with
  | handOut hr => exact .handedOut ((handOut_ends h.within).of_ok hr)
  | touchAhead hr => exact .touchedAhead ((touchAhead_ends h.within).of_ok hr)
  | grow hr => exact ((grow_ends h).of_ok hr).effect rfl
  | @growBy bytes _ _ hr =>
    by_cases hb : bytes = 0
    · subst hb
      have hends : Ends (Generation.growBy g.guard 0) g (fun _ g' => Alike g g') fun _ _ => True :=
        ends_growBy_zero.2 (Alike.refl g)
      exact .alike (hends.of_ok hr) rfl
    · exact ((growBy_ends h hb).of_ok hr).effect rfl
  | growFully hr => exact ((growFully_ends h).of_ok hr).effect rfl
  | giveBack hr =>
    cases (giveBack_ends h).of_ok hr with
    | nothing _ => exact .alike (Alike.refl g) rfl
    | shrunk hs _ => exact .shrunk hs
  | write hr => exact .alike (write_ends (E := fun _ _ => True).of_ok hr) rfl
  | emit _ _ hr => exact .alike (emit_ends (E := fun _ _ => True).of_ok hr) rfl
  | store addr w => exact .stored addr w

theorem Effect.setup_eq (he : Effect g c g') : g'.setup = g.setup := by
  cases he with
  | alike ha _ => exact ha.setup_eq
  | grown hg _ => exact hg.setup_eq
  | shrunk hs => exact hs.setup_eq
  | handedOut ho => exact ho.stays.setup_eq
  | touchedAhead ht => exact ht.setup_eq
  | stored addr w => rfl

theorem Effect.inLine (he : Effect g c g') (h : InLine g old) : ∃ region, InLine g' region := by
  cases he with
  | alike ha _ => exact ⟨old, ha.inLine h⟩
  | grown hg _ => exact ⟨_, hg.inLine h⟩
  | shrunk hs => exact ⟨_, hs.inLine h⟩
  | handedOut ho => exact ⟨old, ho.stays.inLine h (ho.within h.within)⟩
  | touchedAhead ht => exact ⟨old, ht.inLine h⟩
  | stored addr w => exact ⟨old, h.store addr w⟩

theorem Calls.inLine (h : Calls g cs g') (h₀ : InLine g old) : ∃ region, InLine g' region := by
  induction h with
  | start => exact ⟨old, h₀⟩
  | tail _ hc ih =>
    obtain ⟨region, hin⟩ := ih
    exact (hc.effect hin).inLine hin

theorem Calls.setup_eq (h : Calls g cs g') (h₀ : InLine g old) : g'.setup = g.setup := by
  induction h with
  | start => rfl
  | tail h hc ih =>
    obtain ⟨region, hin⟩ := h.inLine h₀
    exact (hc.effect hin).setup_eq.trans ih

end Generation

end Tenured
