import Dotchat.Library.Program

/-!
Two programs that overlap on one store. Their calls happen one after the other in
any order; run serially, one program ends before the other begins. As long as
nobody writes, the order of the calls does not matter, so an interleaving is
decided by the first call that changes the store. When that is the last call of
its program, the other one has been overtaken: it has read what it knows before
the change, and goes on behind it. It may as well have begun behind the change if
the rest of the program that it has reached is also reached from there.
-/
namespace Program

variable {C : Type} {Ans : C → Type} {E W α β α' β' : Type}

/-- The ends that two programs can come to when their calls alternate. -/
inductive Interleaved (perform : Store C Ans E W) :
    Program C Ans E α → Program C Ans E β → W → Outcome E α → Outcome E β → W → Prop
  | done (o : Outcome E α) (o' : Outcome E β) (w : W) :
      Interleaved perform (.done o) (.done o') w o o' w
  | left {c : C} {next : Except E (Ans c) → Program C Ans E α} {q : Program C Ans E β}
      {w w' : W} {o : Outcome E α} {o' : Outcome E β}
      (h : Interleaved perform (next (perform c w).1) q (perform c w).2 o o' w') :
      Interleaved perform (.call c next) q w o o' w'
  | right {c : C} {next : Except E (Ans c) → Program C Ans E β} {p : Program C Ans E α}
      {w w' : W} {o : Outcome E α} {o' : Outcome E β}
      (h : Interleaved perform p (next (perform c w).1) (perform c w).2 o o' w') :
      Interleaved perform p (.call c next) w o o' w'

/-- One program runs behind the other. -/
def Serial (perform : Store C Ans E W) (p : Program C Ans E α) (q : Program C Ans E β) (w : W)
    (o : Outcome E α) (o' : Outcome E β) (w' : W) : Prop :=
  ∃ v, p.run perform w = (o, v) ∧ q.run perform v = (o', w')

/-- `Advances perform w p p'`: calls that leave the store at `w` lead from `p` to `p'`. -/
inductive Advances (perform : Store C Ans E W) (w : W) :
    Program C Ans E α → Program C Ans E α → Prop
  | refl (p : Program C Ans E α) : Advances perform w p p
  | call {c : C} {next : Except E (Ans c) → Program C Ans E α} {p : Program C Ans E α}
      (hc : (perform c w).2 = w) (h : Advances perform w (next (perform c w).1) p) :
      Advances perform w (.call c next) p

/-- The second program has read a part of what it reads, then the first one has
run, and the second goes on. -/
def Overtaken (perform : Store C Ans E W) (p : Program C Ans E α) (q : Program C Ans E β) (w : W)
    (o : Outcome E α) (o' : Outcome E β) (w' : W) : Prop :=
  ∃ q' v, Advances perform w q q' ∧ p.run perform w = (o, v) ∧ q'.run perform v = (o', w')

/-- The first call that changes the store is one of the first program. -/
def WritesFirst (perform : Store C Ans E W) (p : Program C Ans E α) (q : Program C Ans E β)
    (w : W) (o : Outcome E α) (o' : Outcome E β) (w' : W) : Prop :=
  ∃ c next q', Advances perform w p (.call c next) ∧ Advances perform w q q' ∧
    (perform c w).2 ≠ w ∧
      Interleaved perform (next (perform c w).1) q' (perform c w).2 o o' w'

theorem serial_iff {perform : Store C Ans E W} {p : Program C Ans E α} {q : Program C Ans E β}
    {w w' : W} {o : Outcome E α} {o' : Outcome E β} : Serial perform p q w o o' w' ↔
      (p.run perform w).1 = o ∧ q.run perform (p.run perform w).2 = (o', w') := by
  constructor
  · rintro ⟨v, hp, hq⟩
    rw [hp]
    exact ⟨rfl, hq⟩
  · rintro ⟨rfl, hq⟩
    exact ⟨_, rfl, hq⟩

section Interleaved

variable {perform : Store C Ans E W} {p p' : Program C Ans E α} {q q' : Program C Ans E β}
  {w v w' : W} {o : Outcome E α} {o' : Outcome E β}

theorem Interleaved.swap (h : Interleaved perform p q w o o' w') :
    Interleaved perform q p w o' o w' := by
  induction h with
  | done o o' w => exact .done o' o w
  | left _ ih => exact .right ih
  | right _ ih => exact .left ih

theorem Interleaved.of_done {o₁ : Outcome E α}
    (h : Interleaved perform (.done o₁) q w o o' w') :
    o₁ = o ∧ q.run perform w = (o', w') := by
  generalize hp : (Program.done o₁ : Program C Ans E α) = p at h
  induction h with
  | done o o' w =>
    cases hp
    exact ⟨rfl, rfl⟩
  | left _ _ => cases hp
  | right _ ih => exact ih hp

theorem Advances.run (h : Advances perform w p p') : p.run perform w = p'.run perform w := by
  induction h with
  | refl p => rfl
  | @call c next p hc _ ih =>
    show (next (perform c w).1).run perform (perform c w).2 = _
    rw [hc, ih]

/-- A program that has ended advances no further. -/
theorem Advances.of_done (h : Advances perform w (.done o) p) : p = .done o := by
  cases h
  rfl

theorem Advances.interleaved (hq : Advances perform w q q')
    (h : Interleaved perform p q' w o o' w') : Interleaved perform p q w o o' w' := by
  induction hq with
  | refl q => exact h
  | call hc _ ih =>
    apply Interleaved.right
    rw [hc]
    exact ih h

/-- The first call of the program decides how it advances. -/
theorem Advances.of_call {c : C} {next : Except E (Ans c) → Program C Ans E α}
    (h : Advances perform w (.call c next) p) :
    p = .call c next ∨ (perform c w).2 = w ∧ Advances perform w (next (perform c w).1) p := by
  cases h with
  | refl => exact .inl rfl
  | call hc h => exact .inr ⟨hc, h⟩

/-- An interleaving is decided by the first write. -/
theorem Interleaved.first_write (h : Interleaved perform p q w o o' w') :
    Overtaken perform p q w o o' w' ∨ WritesFirst perform p q w o o' w' ∨
      WritesFirst perform q p w o' o w' := by
  induction h with
  | done o o' w => exact .inl ⟨_, w, .refl _, rfl, rfl⟩
  | @left c next q w w' o o' h ih =>
    by_cases hc : (perform c w).2 = w
    · rw [hc] at ih
      rcases ih with ⟨q', v, hq, hp, hrest⟩ | ⟨d, next', q', hp, hq, hd, hrest⟩ |
        ⟨d, next', p', hq, hp, hd, hrest⟩
      · refine .inl ⟨q', v, hq, ?_, hrest⟩
        show (next (perform c w).1).run perform (perform c w).2 = _
        rw [hc, hp]
      · exact .inr (.inl ⟨d, next', q', .call hc hp, hq, hd, hrest⟩)
      · exact .inr (.inr ⟨d, next', p', hq, .call hc hp, hd, hrest⟩)
    · exact .inr (.inl ⟨c, next, q, .refl _, .refl q, hc, h⟩)
  | @right c next p w w' o o' h ih =>
    by_cases hc : (perform c w).2 = w
    · rw [hc] at ih
      rcases ih with ⟨q', v, hq, hp, hrest⟩ | ⟨d, next', q', hp, hq, hd, hrest⟩ |
        ⟨d, next', p', hq, hp, hd, hrest⟩
      · exact .inl ⟨q', v, .call hc hq, hp, hrest⟩
      · exact .inr (.inl ⟨d, next', q', hp, .call hc hq, hd, hrest⟩)
      · exact .inr (.inr ⟨d, next', p', .call hc hq, hp, hd, hrest⟩)
    · exact .inr (.inr ⟨c, next, p, .refl _, .refl p, hc, h.swap⟩)

/-- A program that ends with its call has overtaken the other one. -/
theorem Overtaken.of_last {c : C} {next : Except E (Ans c) → Program C Ans E α}
    (hp : Advances perform w p (.call c next)) (hq : Advances perform w q q')
    (hlast : (next (perform c w).1).ended = true)
    (hrest : Interleaved perform (next (perform c w).1) q' (perform c w).2 o o' w') :
    Overtaken perform p q w o o' w' := by
  obtain ⟨o₁, ho⟩ := ended_iff.mp hlast
  rw [ho] at hrest
  obtain ⟨rfl, hrun⟩ := hrest.of_done
  refine ⟨q', (perform c w).2, hq, ?_, hrun⟩
  rw [hp.run]
  show (next (perform c w).1).run perform (perform c w).2 = _
  rw [ho]
  rfl

/-- What had ended before it was overtaken comes first. -/
theorem Advances.serial_of_ended (hq : Advances perform w q q') (hended : q'.ended = true)
    (hp : p.run perform w = (o, v)) (hrest : q'.run perform v = (o', w')) :
    Serial perform q p w o' o w' := by
  obtain ⟨o₁, rfl⟩ := ended_iff.mp hended
  cases hrest
  exact ⟨w, hq.run, hp⟩

/-- What could have been read behind the change comes behind it. -/
theorem Advances.serial_of_advances (hq : Advances perform v q q')
    (hp : p.run perform w = (o, v)) (hrest : q'.run perform v = (o', w')) :
    Serial perform p q w o o' w' :=
  ⟨v, hp, hq.run.trans hrest⟩

end Interleaved

/-- What is read at `w` is read at `v` with the same consequences, except by the
last call; where that fails, the rest of the program has the property `X`. -/
def Carries (perform : Store C Ans E W) (X : Program C Ans E α → Prop) (w v : W)
    (p : Program C Ans E α) : Prop :=
  ∀ p', Advances perform w p p' → p'.ended = true ∨ Advances perform v p p' ∨ X p'

section Carries

variable {perform : Store C Ans E W} {X : Program C Ans E α → Prop} {w v : W} {c : C}
  {next : Except E (Ans c) → Program C Ans E α} {p : Program C Ans E α}

theorem Carries.of_ended (h : p.ended = true) : Carries perform X w v p := by
  obtain ⟨o, rfl⟩ := ended_iff.mp h
  intro p' hp'
  rw [hp'.of_done]
  exact .inl rfl

/-- What the call reads may differ, if the rest has the property. -/
theorem Carries.differs (h : ∀ p', Advances perform w (next (perform c w).1) p' →
    p'.ended = true ∨ X p') : Carries perform X w v (.call c next) := by
  intro p' hp'
  rcases hp'.of_call with rfl | ⟨-, hp'⟩
  · exact .inr (.inl (.refl _))
  · exact (h p' hp').imp_right .inr

/-- A call that is the last one if it reads. -/
theorem Carries.last (h : (perform c w).2 = w → (next (perform c w).1).ended = true) :
    Carries perform X w v (.call c next) := by
  intro p' hp'
  rcases hp'.of_call with rfl | ⟨hc, hp'⟩
  · exact .inr (.inl (.refl _))
  · obtain ⟨o, ho⟩ := ended_iff.mp (h hc)
    rw [ho] at hp'
    rw [hp'.of_done]
    exact .inl rfl

/-- A call that reads the same at both stores. -/
theorem Carries.call (hv : (perform c v).2 = v)
    (hsame : next (perform c v).1 = next (perform c w).1)
    (h : Carries perform X w v (next (perform c w).1)) : Carries perform X w v (.call c next) := by
  intro p' hp'
  rcases hp'.of_call with rfl | ⟨-, hp'⟩
  · exact .inr (.inl (.refl _))
  · rcases h p' hp' with hended | hadv | hx
    · exact .inl hended
    · refine .inr (.inl (.call hv ?_))
      rw [hsame]
      exact hadv
    · exact .inr (.inr hx)

/-- Being overtaken amounts to one of the two orders, unless it happens where the
rest of the program has the property. -/
theorem Advances.serial_or {p' : Program C Ans E α} (h : Advances perform w p p')
    (hp : Carries perform X w v p) {q : Program C Ans E β} {w' : W} {o : Outcome E β}
    {o' : Outcome E α} (hq : q.run perform w = (o, v)) (hrest : p'.run perform v = (o', w')) :
    Serial perform q p w o o' w' ∨ Serial perform p q w o' o w' ∨ X p' := by
  rcases hp p' h with hended | hlate | hx
  · exact .inr (.inl (h.serial_of_ended hended hq hrest))
  · exact .inl (hlate.serial_of_advances hq hrest)
  · exact .inr (.inr hx)

end Carries

/-- Every call does the same before and behind the change `f`. -/
def Ignores (perform : Store C Ans E W) (f : W → W) : Program C Ans E α → Prop
  | .done _ => True
  | .call c next =>
      (∀ w, perform c (f w) = ((perform c w).1, f (perform c w).2)) ∧
        ∀ a, Ignores perform f (next a)

/-- However the store changes meanwhile, the program ends with `X`. -/
def EndsIn (perform : Store C Ans E W) (X : Outcome E α → Prop) : Program C Ans E α → Prop
  | .done o => X o
  | .call c next => ∀ w, EndsIn perform X (next (perform c w).1)

/-- The program comes to the same if the change `f` happens before it and not
behind it, but for `R` in the effect of its last call; or it ends with `X`. -/
def Yields (perform : Store C Ans E W) (f : W → W) (R : W → W → Prop) (X : Outcome E α → Prop) :
    Program C Ans E α → W → Prop
  | .done _, _ => True
  | .call c next, w =>
      (next (perform c (f w)).1 = next (perform c w).1 ∧
        ((perform c (f w)).2 = f (perform c w).2 ∧
            Yields perform f R X (next (perform c w).1) (perform c w).2 ∨
          (next (perform c w).1).ended = true ∧ R (perform c (f w)).2 (f (perform c w).2))) ∨
      EndsIn perform X (next (perform c w).1)

section Changes

variable {perform : Store C Ans E W} {f : W → W} {R : W → W → Prop} {p : Program C Ans E α}
  {q : Program C Ans E β} {w w' : W} {o : Outcome E α} {o' : Outcome E β}
  {X : Outcome E β → Prop}

theorem Ignores.run (h : Ignores perform f p) (w : W) :
    p.run perform (f w) = ((p.run perform w).1, f (p.run perform w).2) := by
  induction p generalizing w with
  | done o => rfl
  | call c next ih =>
    show (next (perform c (f w)).1).run perform (perform c (f w)).2 = _
    rw [h.1 w, ih _ (h.2 _)]
    rfl

theorem Ignores.advances {p' : Program C Ans E α} (h : Ignores perform f p)
    (hp : Advances perform w p p') : Ignores perform f p' := by
  induction hp with
  | refl p => exact h
  | call _ _ ih => exact ih (h.2 _)

theorem EndsIn.interleaved (hq : EndsIn perform X q) (h : Interleaved perform p q w o o' w') :
    X o' := by
  induction h with
  | done _ _ _ => exact hq
  | left _ ih => exact ih hq
  | right _ ih => exact ih (hq _)

section Tail

variable {c : C} {next : Except E (Ans c) → Program C Ans E α} {o₁ : Outcome E α}

/-- The last call decides how its program ends. -/
theorem Interleaved.of_last (hlast : ∀ v, next (perform c v).1 = .done o₁)
    (h : Interleaved perform (.call c next) q w o o' w') : o₁ = o := by
  generalize hp : Program.call c next = p at h
  induction h with
  | done _ _ _ => cases hp
  | @left d next' q w w' o o' h _ =>
    cases hp
    rw [hlast w] at h
    exact h.of_done.1
  | right _ ih => exact ih hp

/-- A last call may as well happen at once, if the other program yields to it. -/
theorem Interleaved.early (hlast : ∀ v, next (perform c v).1 = .done o₁ ∧ (perform c v).2 = f v)
    (hR : ∀ v, R v v) (hq : Yields perform f R X q w)
    (h : Interleaved perform (.call c next) q w o o' w') :
    X o' ∨ ∃ v, R v w' ∧ q.run perform (f w) = (o', v) := by
  generalize hp : Program.call c next = p at h
  induction h with
  | done _ _ _ => cases hp
  | @left d next' q w w' o o' h _ =>
    cases hp
    rw [(hlast w).1, (hlast w).2] at h
    exact .inr ⟨w', hR w', h.of_done.2⟩
  | @right d next' p w w' o o' h ih =>
    obtain ⟨hsame, ⟨heffect, hrest⟩ | ⟨hended, hrelated⟩⟩ | hends := hq
    · refine (ih hrest hp).imp_right ?_
      rintro ⟨v, hv, hrun⟩
      refine ⟨v, hv, ?_⟩
      show (next' (perform d (f w)).1).run perform (perform d (f w)).2 = _
      rw [hsame, heffect, hrun]
    · right
      obtain ⟨o₂, ho₂⟩ := ended_iff.mp hended
      cases hp
      rw [ho₂] at h
      obtain ⟨rfl, hrun⟩ := h.swap.of_done
      have hlate : (next (perform c (perform d w).2).1).run perform
          (perform c (perform d w).2).2 = (o, w') := hrun
      rw [(hlast _).1, (hlast _).2] at hlate
      cases hlate
      refine ⟨_, hrelated, ?_⟩
      show (next' (perform d (f w)).1).run perform (perform d (f w)).2 = _
      rw [hsame, ho₂]
      rfl
    · exact .inl (hends.interleaved h)

/-- A last call overtakes a program that reads to its end. -/
theorem Interleaved.late (hlast : ∀ v, next (perform c v).1 = .done o₁ ∧ (perform c v).2 = f v)
    {o₂ : Outcome E β} (hq : Advances perform w q (.done o₂))
    (h : Interleaved perform (.call c next) q w o o' w') :
    ∃ q', Advances perform w q q' ∧ q'.run perform (f w) = (o', w') := by
  generalize hp : Program.call c next = p at h
  induction h with
  | done _ _ _ => cases hp
  | @left d next' q w w' o o' h _ =>
    cases hp
    rw [(hlast w).1, (hlast w).2] at h
    exact ⟨q, .refl q, h.of_done.2⟩
  | @right d next' p w w' o o' h ih =>
    rcases hq.of_call with hq | ⟨hd, hq⟩
    · cases hq
    · rw [hd] at ih
      obtain ⟨q', hq', hrun⟩ := ih hq hp
      exact ⟨q', .call hd hq', hrun⟩

end Tail
end Changes

/-- The ends of two programs whose calls alternate as told: `true` is a call of
the first one. -/
def interleave (perform : Store C Ans E W) : List Bool → Program C Ans E α → Program C Ans E β →
    W → Option (Outcome E α × Outcome E β × W)
  | [], .done o, .done o', w => some (o, o', w)
  | true :: moves, .call c next, q, w =>
      interleave perform moves (next (perform c w).1) q (perform c w).2
  | false :: moves, p, .call c next, w =>
      interleave perform moves p (next (perform c w).1) (perform c w).2
  | _, _, _, _ => none

theorem Interleaved.of_interleave {perform : Store C Ans E W} {moves : List Bool}
    {p : Program C Ans E α} {q : Program C Ans E β} {w w' : W} {o : Outcome E α}
    {o' : Outcome E β} (h : interleave perform moves p q w = some (o, o', w')) :
    Interleaved perform p q w o o' w' := by
  induction moves generalizing p q w with
  | nil =>
    cases p with
    | call c next => cases h
    | done oₚ =>
      cases q with
      | call c next => cases h
      | done o_q =>
        cases h
        exact .done _ _ _
  | cons move moves ih =>
    cases move with
    | true =>
      cases p with
      | done oₚ => cases h
      | call c next => exact .left (ih h)
    | false =>
      cases q with
      | done o_q => cases p <;> cases h
      | call c next =>
        cases p with
        | done oₚ => exact .right (ih h)
        | call d next' => exact .right (ih h)

/-- Go on from the outcome without a call. -/
def finish (g : Outcome E α → Outcome E β) : Program C Ans E α → Program C Ans E β
  | .done o => .done (g o)
  | .call c next => .call c fun a => (next a).finish g

section Finish

variable {perform : Store C Ans E W} {p : Program C Ans E α}

theorem run_finish (g : Outcome E α → Outcome E β) (p : Program C Ans E α) (w : W) :
    (p.finish g).run perform w = (g (p.run perform w).1, (p.run perform w).2) := by
  induction p generalizing w with
  | done o => rfl
  | call c next ih => exact ih _ _

theorem finish_finish (g : Outcome E α → Outcome E β) (g' : Outcome E β → Outcome E α')
    (p : Program C Ans E α) : (p.finish g).finish g' = p.finish fun o => g' (g o) := by
  induction p with
  | done o => rfl
  | call c next ih => exact congrArg (Program.call c) (funext ih)

theorem bind_eq_finish {f : α → Program C Ans E β} {g : Outcome E α → Outcome E β}
    (hreturned : ∀ a, f a = .done (g (.returned a))) (hthrew : ∀ e, g (.threw e) = .threw e)
    (hrunning : g .running = .running) (p : Program C Ans E α) : p >>= f = p.finish g := by
  induction p with
  | done o =>
    cases o with
    | returned a => exact hreturned a
    | threw e => exact congrArg Program.done (hthrew e).symm
    | running => exact congrArg Program.done hrunning.symm
  | call c next ih => exact congrArg (Program.call c) (funext ih)

theorem map_eq_finish (f : α → β) (p : Program C Ans E α) :
    f <$> p = p.finish (Outcome.map f) := by
  have hbind : (p >>= fun a => (.done (.returned (f a)) : Program C Ans E β)) =
      p.finish (Outcome.map f) :=
    bind_eq_finish (g := Outcome.map f) (fun _ => rfl) (fun _ => rfl) rfl p
  exact hbind

theorem map_bind (g : β → α') (p : Program C Ans E α) (f : α → Program C Ans E β) :
    g <$> (p >>= f) = p >>= fun a => g <$> f a := by
  induction p with
  | done o => cases o <;> rfl
  | call c next ih => exact congrArg (Program.call c) (funext ih)

theorem tryCatch_eq_finish {handler : E → Program C Ans E α} {g : Outcome E α → Outcome E α}
    (hthrew : ∀ e, handler e = .done (g (.threw e)))
    (hreturned : ∀ a, g (.returned a) = .returned a) (hrunning : g .running = .running)
    (p : Program C Ans E α) : p.tryCatch handler = p.finish g := by
  induction p with
  | done o =>
    cases o with
    | returned a => exact congrArg Program.done (hreturned a).symm
    | threw e => exact hthrew e
    | running => exact congrArg Program.done hrunning.symm
  | call c next ih => exact congrArg (Program.call c) (funext ih)

/-- What follows without a call does not take part in an interleaving. -/
theorem Interleaved.of_finish {q : Program C Ans E β} {w w' : W} {o : Outcome E α'}
    {o' : Outcome E β'} (g : Outcome E α → Outcome E α') (g' : Outcome E β → Outcome E β')
    (h : Interleaved perform (p.finish g) (q.finish g') w o o' w') :
    ∃ oₚ o_q, o = g oₚ ∧ o' = g' o_q ∧ Interleaved perform p q w oₚ o_q w' := by
  generalize hp : p.finish g = P at h
  generalize hq : q.finish g' = Q at h
  induction h generalizing p q with
  | done o o' w =>
    cases p with
    | call _ _ => cases hp
    | done oₚ =>
      cases q with
      | call _ _ => cases hq
      | done o_q =>
        cases hp
        cases hq
        exact ⟨oₚ, o_q, rfl, rfl, .done oₚ o_q w⟩
  | left _ ih =>
    cases p with
    | done _ => cases hp
    | call c next =>
      cases hp
      obtain ⟨oₚ, o_q, ho, ho', hrest⟩ := ih rfl hq
      exact ⟨oₚ, o_q, ho, ho', .left hrest⟩
  | right _ ih =>
    cases q with
    | done _ => cases hq
    | call c next =>
      cases hq
      obtain ⟨oₚ, o_q, ho, ho', hrest⟩ := ih hp rfl
      exact ⟨oₚ, o_q, ho, ho', .right hrest⟩

theorem Serial.finish {q : Program C Ans E β} {w w' : W} {o : Outcome E α} {o' : Outcome E β}
    (h : Serial perform p q w o o' w') (g : Outcome E α → Outcome E α')
    (g' : Outcome E β → Outcome E β') :
    Serial perform (p.finish g) (q.finish g') w (g o) (g' o') w' := by
  obtain ⟨v, hp, hq⟩ := h
  refine ⟨v, ?_, ?_⟩
  · rw [run_finish, hp]
  · rw [run_finish, hq]

end Finish
end Program
