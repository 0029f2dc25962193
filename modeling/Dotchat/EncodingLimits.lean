import Dotchat.Encoder

/-!
What the encoder refuses, said without its recursion: a value that is too long
somewhere inside the message. The three functions of the encoder check strings,
keys and objects at every depth, through objects and lists alike. They do not
check that an `arg` still has its value, and the cast of one that has not throws
something else.
-/
namespace Dotchat

/-- The first of a list to fail. -/
theorem exists_first_not {α : Type} {P : α → Prop} {xs : List α} (h : ¬ ∀ x ∈ xs, P x) :
    ∃ front x back, xs = front ++ x :: back ∧ (∀ y ∈ front, P y) ∧ ¬ P x := by
  induction xs with
  | nil => simp at h
  | cons y xs ih =>
    by_cases hy : P y
    · obtain ⟨front, x, back, rfl, hfront, hx⟩ :=
        ih fun hall => h (List.forall_mem_cons.mpr ⟨hy, hall⟩)
      exact ⟨y :: front, x, back, rfl, List.forall_mem_cons.mpr ⟨hy, hfront⟩, hx⟩
    · exact ⟨[], y, xs, rfl, by simp, hy⟩

namespace Arg

variable {V : Type}

/-- The first value occurs at some depth of the second. -/
inductive Within : Arg V → Arg V → Prop
  | here (a : Arg V) : Within a a
  | entry {a : Arg V} {o : ArgObj V} {e : Bytes × Arg V} (he : e ∈ o) (h : Within a e.2) :
      Within a (.subObject o)
  | element {a b : Arg V} {t : ValType} {c : List (Arg V)} (hb : b ∈ c) (h : Within a b) :
      Within a (.list t c)

section Within

variable {S : Bytes → Prop} {O : ArgObj V → Prop} {L : ArgList V → Prop} {a b : Arg V}

/-- A condition that holds everywhere in a value holds everywhere in each value
inside it. -/
theorem Everywhere.within (h : Everywhere S O L b) (hab : Within a b) : Everywhere S O L a := by
  induction hab with
  | here => exact h
  | entry he _ ih =>
    obtain ⟨-, -, hvals⟩ := everywhere_subObject.mp h
    exact ih (hvals _ he)
  | element hb _ ih =>
    obtain ⟨-, hvals⟩ := everywhere_list.mp h
    exact ih (hvals _ hb)

/-- Strings, keys and objects at every depth fit their one-byte lengths. -/
structure Fits (a : Arg V) : Prop where
  strings : ∀ v, Within (.string v) a → v.length ≤ 0xFF
  counts : ∀ o, Within (.subObject o) a → o.length ≤ 0xFF
  keys : ∀ o, Within (.subObject o) a → ∀ e ∈ o, e.1.length ≤ 0xFF

theorem fits_of_sendable (h : a.Sendable) : a.Fits where
  strings _ hv := everywhere_string.mp (h.within hv)
  counts _ ho := (everywhere_subObject.mp (h.within ho)).1
  keys _ ho := (everywhere_subObject.mp (h.within ho)).2.1

theorem Fits.entry {o : ArgObj V} (h : Fits (.subObject o)) {e : Bytes × Arg V} (he : e ∈ o) :
    e.2.Fits where
  strings v hv := h.strings v (.entry he hv)
  counts o ho := h.counts o (.entry he ho)
  keys o ho := h.keys o (.entry he ho)

theorem Fits.element {t : ValType} {c : List (Arg V)} (h : Fits (.list t c)) {b : Arg V}
    (hb : b ∈ c) : b.Fits where
  strings v hv := h.strings v (.element hb hv)
  counts o ho := h.counts o (.element hb ho)
  keys o ho := h.keys o (.element hb ho)

theorem fits_valueless {v : V} {t : ValType} : Fits (.valueless v t) where
  strings _ hv := nomatch hv
  counts _ ho := nomatch ho
  keys _ ho := nomatch ho

theorem fits_subObject {o : ArgObj V} (hcount : o.length ≤ 0xFF)
    (h : ∀ e ∈ o, e.1.length ≤ 0xFF ∧ e.2.Fits) : Fits (.subObject o) where
  strings v hv := by
    cases hv with
    | entry he hv => exact (h _ he).2.strings v hv
  counts o' ho := by
    cases ho with
    | here => exact hcount
    | entry he ho => exact (h _ he).2.counts o' ho
  keys o' ho := by
    cases ho with
    | here => exact fun e he => (h e he).1
    | entry he ho => exact (h _ he).2.keys o' ho

/-- Where nothing is too long, the first value that cannot be sent is missing. -/
theorem Fits.sendable_or_lacking (h : a.Fits) : a.Sendable ∨ a.Lacking := by
  induction a using inductAll with
  | valueless v t => exact .inr (.valueless v t)
  | scalar v => exact .inl (.scalar v)
  | string v => exact .inl (.string (h.strings v (.here _)))
  | subObject o ih =>
    have hcount := h.counts o (.here _)
    have hkeys := h.keys o (.here _)
    by_cases hall : ∀ e ∈ o, e.2.Sendable
    · exact .inl (.subObject hcount hkeys hall)
    · obtain ⟨front, ⟨key, b⟩, back, rfl, hfront, hb⟩ := exists_first_not hall
      have hmem : (key, b) ∈ front ++ (key, b) :: back := by simp
      have hlacking := (ih _ hmem (h.entry hmem)).resolve_left hb
      refine .inr (.entry hcount ?_ (hkeys _ hmem) hlacking)
      exact fun e he => ⟨hkeys e (List.mem_append_left _ he), hfront e he⟩
  | list t c ih =>
    by_cases hall : ∀ b ∈ c, b.Sendable
    · exact .inl (.list trivial hall)
    · obtain ⟨front, b, back, rfl, hfront, hb⟩ := exists_first_not hall
      have hmem : b ∈ front ++ b :: back := by simp
      exact .inr (.element hfront ((ih b hmem (h.element hmem)).resolve_left hb))

end Within
end Arg

namespace Message

open Arg (Within)

variable {V : Type}

/-- Something in the message does not fit its one-byte length: the command, the
number of keys of an object, a key, or a string, at any depth. -/
inductive Overlong (m : Message V) : Prop
  | command (h : 255 < m.cmd.length)
  | keys {o : ArgObj V} (ho : Within (.subObject o) m.argsValue) (h : 255 < o.length)
  | key {o : ArgObj V} {e : Bytes × Arg V} (ho : Within (.subObject o) m.argsValue) (he : e ∈ o)
      (h : 255 < e.1.length)
  | string {v : Bytes} (hv : Within (.string v) m.argsValue) (h : 255 < v.length)

theorem not_overlong_iff {m : Message V} :
    ¬ m.Overlong ↔ m.cmd.length ≤ 0xFF ∧ m.argsValue.Fits := by
  constructor
  · intro h
    refine ⟨Nat.le_of_not_lt fun hlt => h (.command hlt), ?_, ?_, ?_⟩
    · exact fun v hv => Nat.le_of_not_lt fun hlt => h (.string hv hlt)
    · exact fun o ho => Nat.le_of_not_lt fun hlt => h (.keys ho hlt)
    · exact fun o ho e he => Nat.le_of_not_lt fun hlt => h (.key ho he hlt)
  · rintro ⟨hcmd, hfits⟩ hover
    cases hover with
    | command h => exact absurd hcmd (Nat.not_le.mpr h)
    | keys ho h => exact absurd (hfits.counts _ ho) (Nat.not_le.mpr h)
    | key ho he h => exact absurd (hfits.keys _ ho _ he) (Nat.not_le.mpr h)
    | string hv h => exact absurd (hfits.strings _ hv) (Nat.not_le.mpr h)

theorem Sendable.not_overlong {m : Message V} (h : m.Sendable) : ¬ m.Overlong :=
  not_overlong_iff.mpr ⟨h.1, Arg.fits_of_sendable h.2⟩

theorem sendable_or_lacking {m : Message V} (h : ¬ m.Overlong) : m.Sendable ∨ m.Lacking := by
  obtain ⟨hcmd, hfits⟩ := not_overlong_iff.mp h
  exact hfits.sendable_or_lacking.imp (And.intro hcmd) (And.intro hcmd)

/-- What `send_to` documents: a `message_error` exactly when something is too long,
and nothing else is thrown. -/
structure RejectsOverlong (m : Message V) (strm : Bytestream) : Prop where
  rejects : (∃ what strm', m.sendTo strm = .error (.thrown (.messageError what)) strm') ↔
    m.Overlong
  returns : ¬ m.Overlong → ∃ strm', m.sendTo strm = .ok () strm'
  only : ∀ f strm', m.sendTo strm = .error f strm' → ∃ what, f = .thrown (.messageError what)

theorem rejectsOverlong_of_sendable {m : Message V} (h : m.Sendable) (strm : Bytestream) :
    m.RejectsOverlong strm := by
  have hsent := sendTo_emits h strm
  constructor
  · refine iff_of_false ?_ h.not_overlong
    rintro ⟨what, strm', hrun⟩
    rw [hsent] at hrun
    cases hrun
  · exact fun _ => ⟨_, hsent⟩
  · intro f strm' hrun
    rw [hsent] at hrun
    cases hrun

theorem rejectsOverlong_of_overlong {m : Message V} (h : m.Overlong) (hfull : ¬ m.Lacking)
    (strm : Bytestream) : m.RejectsOverlong strm := by
  obtain ⟨what, strm', hrefused⟩ := sendTo_rejects (fun hs => hs.not_overlong h) hfull strm
  constructor
  · exact iff_of_true ⟨what, strm', hrefused⟩ h
  · exact fun hno => absurd h hno
  · intro f strm'' hrun
    rw [hrefused] at hrun
    cases hrun
    exact ⟨what, rfl⟩

theorem rejectsOverlong_of_not_lacking {m : Message V} (h : ¬ m.Lacking) (strm : Bytestream) :
    m.RejectsOverlong strm := by
  by_cases hover : m.Overlong
  · exact rejectsOverlong_of_overlong hover h strm
  · exact rejectsOverlong_of_sendable ((sendable_or_lacking hover).resolve_right h) strm

/-- A message of which no argument has lost its value. -/
theorem rejectsOverlong (m : Message) (strm : Bytestream) : m.RejectsOverlong strm :=
  rejectsOverlong_of_not_lacking (fun h => Arg.not_lacking h.2) strm

/-- `send_to` does what it documents unless it comes to an `arg` that has lost its value,
with nothing that is too long before it. -/
theorem rejectsOverlong_iff (m : Message V) (strm : Bytestream) :
    m.RejectsOverlong strm ↔ ¬ m.Lacking := by
  constructor
  · intro h hlacking
    obtain ⟨strm', hrun⟩ := sendTo_drops hlacking strm
    obtain ⟨what, hwhat⟩ := h.only _ _ hrun
    cases hwhat
  · exact fun h => rejectsOverlong_of_not_lacking h strm

/-- The message after `m.map()["k"] = m.map()`. -/
def selfAssigned : Message Unit := { args := ArgObj.assignSelf [] [0x6B] }

/-- Nothing in it is too long, and it is not sent. -/
theorem selfAssigned_not_rejectsOverlong :
    ¬ selfAssigned.Overlong ∧
      (∃ strm, selfAssigned.sendTo {} = .error (.thrown .badAnyCast) strm) ∧
      ¬ selfAssigned.RejectsOverlong {} := by
  have hinner : Arg.Fits (.subObject [([0x6B], .valueless () .subObject)]) :=
    Arg.fits_subObject (by decide)
      (List.forall_mem_singleton.mpr ⟨by decide, Arg.fits_valueless⟩)
  have hfits : Arg.Fits selfAssigned.argsValue :=
    Arg.fits_subObject (by decide) (List.forall_mem_singleton.mpr ⟨by decide, hinner⟩)
  have hthrown : ∃ strm, selfAssigned.sendTo {} = .error (.thrown .badAnyCast) strm := ⟨_, rfl⟩
  refine ⟨not_overlong_iff.mpr ⟨by decide, hfits⟩, hthrown, ?_⟩
  intro h
  obtain ⟨strm, hrun⟩ := hthrown
  obtain ⟨what, hwhat⟩ := h.only _ _ hrun
  cases hwhat

end Message
end Dotchat
