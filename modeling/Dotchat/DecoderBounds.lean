import Dotchat.NormalForm

/-!
Which inputs make the decoder index past the end of the stream. The fields that
a message still owes form a stack of items; reading the front item consumes
bytes and may push further items. Integers never run short, since `read` stops
at the end of the stream, but every length, count, type byte and character is
extracted without a check. Each reader is shown to follow its item, so that the
decoder stays inside its input exactly when no item runs short.
-/
namespace Dotchat

open FaultState Bytestream

/-- A field of the format that is still to be read. -/
inductive Item
  | string
  | chars (n : ℕ)
  | object
  | entries (n : ℕ)
  | typed
  | value (ty : UInt8)
  | list
  | size (ty : UInt8)
  | elements (ty : UInt8) (n : ℕ)

/-- What a field asks of the bytes at hand: one more byte than there are, a
type that does not exist, or some bytes and then further fields. -/
inductive Demand
  | short
  | rejected
  | next (items : List Item) (rest : Bytes)

/-- The length field of a list, zero-filled when the input ends inside it. -/
def lengthField (bytes : Bytes) : ℕ := (scalarOf .uint32 (bytes.take 4)).word

namespace Item

def demand : Item → Bytes → Demand
  | string, [] => .short
  | string, n :: rest => .next [chars n.toNat] rest
  | chars 0, bytes => .next [] bytes
  | chars (_ + 1), [] => .short
  | chars (n + 1), _ :: rest => .next [chars n] rest
  | object, [] => .short
  | object, n :: rest => .next [entries n.toNat] rest
  | entries 0, bytes => .next [] bytes
  | entries (n + 1), bytes => .next [string, typed, entries n] bytes
  | typed, [] => .short
  | typed, ty :: rest => .next [value ty] rest
  | value ty, bytes =>
      match ValType.ofCode ty with
      | some (.scalar t) => .next [] (bytes.drop t.sizeof)
      | some .string => .next [string] bytes
      | some .subObject => .next [object] bytes
      | some .list => .next [list] bytes
      | none => .rejected
  | list, [] => .short
  | list, ty :: rest => .next [size ty] rest
  | size ty, bytes => .next [elements ty (lengthField bytes)] (bytes.drop 4)
  | elements _ 0, bytes => .next [] bytes
  | elements ty (n + 1), bytes => .next [value ty, elements ty n] bytes

end Item

/-- The bytes end inside one of the fields, and none before it is rejected. -/
inductive CutShort : List Item → Bytes → Prop
  | short {i : Item} {st : List Item} {bytes : Bytes} (h : i.demand bytes = .short) :
      CutShort (i :: st) bytes
  | next {i : Item} {st items : List Item} {bytes rest : Bytes}
      (h : i.demand bytes = .next items rest) (hrest : CutShort (items ++ st) rest) :
      CutShort (i :: st) bytes

theorem cutShort_nil (bytes : Bytes) : ¬ CutShort [] bytes := by
  intro h
  cases h

theorem cutShort_of_next {i : Item} {items : List Item} {bytes rest : Bytes}
    (h : i.demand bytes = .next items rest) (st : List Item) :
    CutShort (i :: st) bytes ↔ CutShort (items ++ st) rest := by
  constructor
  · intro hcut
    cases hcut with
    | short h' => simp [h] at h'
    | next h' hrest =>
      rw [h] at h'
      cases h'
      exact hrest
  · exact .next h

theorem cutShort_of_rejected {i : Item} {bytes : Bytes} (h : i.demand bytes = .rejected)
    (st : List Item) : ¬ CutShort (i :: st) bytes := by
  intro hcut
  cases hcut with
  | short h' => simp [h] at h'
  | next h' _ => simp [h] at h'

/-- What a run that reads the fields `pre`, and leaves `post` of its result to
be read, may end in. -/
def Followed {α : Type} (post : α → List Item) (bound : ℕ) (pre : List Item) (bytes : Bytes) :
    EStateM.Result Fault Bytestream α → Prop
  | .ok a s' => s'.Valid ∧ s'.unread.length < bound ∧
      ∀ st, CutShort (pre ++ st) bytes ↔ CutShort (post a ++ st) s'.unread
  | .error (.thrown (.messageError _)) s' => s'.Valid ∧ ∀ st, ¬ CutShort (pre ++ st) bytes
  | .error .outOfBounds _ => ∀ st, CutShort (pre ++ st) bytes
  | .error _ _ => False

/-- A reader follows the fields `pre`: from fewer than `before` unread bytes it
stops on them just when they are cut short or rejected, and otherwise leaves
`post` and fewer than `after` bytes. -/
def Follows {α : Type} (before after : ℕ) (p : StreamM α) (pre : List Item)
    (post : α → List Item) : Prop :=
  ∀ s, s.Valid → s.unread.length < before → Followed post after pre s.unread (p s)

section Rules

variable {α β : Type} {before mid after : ℕ} {pre : List Item}

/-- The same ending, seen from other fields and other bytes. -/
theorem Followed.transfer {pre' : List Item} {post post' : α → List Item} {after' : ℕ}
    {bytes bytes' : Bytes} {r : EStateM.Result Fault Bytestream α}
    (h : Followed post after pre bytes r) (hle : after ≤ after')
    (hst : ∀ st, ∃ st', (CutShort (pre' ++ st) bytes' ↔ CutShort (pre ++ st') bytes) ∧
      ∀ a, post a ++ st' = post' a ++ st) :
    Followed post' after' pre' bytes' r := by
  rcases r with ⟨a, s⟩ | ⟨(_ | _ | _ | _ | _) | _ | _, s⟩
  · obtain ⟨hvalid, hlen, hiff⟩ := h
    refine ⟨hvalid, by omega, fun st => ?_⟩
    obtain ⟨st', hpre, hpost⟩ := hst st
    rw [hpre, hiff st', hpost a]
  · obtain ⟨hvalid, hnot⟩ := h
    refine ⟨hvalid, fun st => ?_⟩
    obtain ⟨st', hpre, -⟩ := hst st
    exact mt hpre.mp (hnot st')
  iterate 4 exact h
  · intro st
    obtain ⟨st', hpre, -⟩ := hst st
    exact hpre.mpr (h st')
  · exact h

theorem Follows.pure (a : α) (items : List Item) :
    Follows before before (Pure.pure a) items fun _ => items :=
  fun _ hs hlen => ⟨hs, hlen, fun _ => Iff.rfl⟩

theorem Follows.weaken {p : StreamM α} {post : α → List Item} {after' : ℕ}
    (hp : Follows before after p pre post) (hle : after ≤ after') :
    Follows before after' p pre post :=
  fun s hs hlen => (hp s hs hlen).transfer hle fun st => ⟨st, Iff.rfl, fun _ => rfl⟩

/-- Two readers in a row; the second may use that the first returned its value. -/
theorem Follows.bind {p : StreamM α} {f : α → StreamM β} {post : α → List Item}
    {post' : β → List Item} (hp : Follows before mid p pre post)
    (hf : ∀ a, (∃ s s', p s = .ok a s') → Follows mid after (f a) (post a) post') :
    Follows before after (p >>= f) pre post' := by
  intro s hs hlen
  have hfirst := hp s hs hlen
  cases h : p s with
  | ok a s' =>
    rw [h] at hfirst
    obtain ⟨hvalid, hlen', hiff⟩ := hfirst
    rw [bind_of_ok h]
    exact (hf a ⟨s, s', h⟩ s' hvalid hlen').transfer (Nat.le_refl _)
      fun st => ⟨st, hiff st, fun _ => rfl⟩
  | error e s' =>
    rw [h] at hfirst
    rw [bind_of_error h]
    rcases e with (_ | _ | _ | _ | _) | _ | _ <;> exact hfirst

/-- An item that turns into others without reading is read by reading those. -/
theorem Follows.unfold {p : StreamM α} {i : Item} (items : List Item) {post : α → List Item}
    (h : ∀ bytes, i.demand bytes = .next items bytes) (hp : Follows before after p items post) :
    Follows before after p [i] post :=
  fun s hs hlen => (hp s hs hlen).transfer (Nat.le_refl _)
    fun st => ⟨st, cutShort_of_next (h s.unread) st, fun _ => rfl⟩

/-- A reader leaves the fields behind its own. -/
theorem Follows.frame {p : StreamM α} {post : α → List Item} (hp : Follows before after p pre post)
    (more : List Item) : Follows before after p (pre ++ more) fun a => post a ++ more :=
  fun s hs hlen => (hp s hs hlen).transfer (Nat.le_refl _)
    fun st => ⟨more ++ st, by rw [List.append_assoc], fun a => (List.append_assoc _ _ _).symm⟩

/-- Reading the byte that an item starts with. -/
theorem extractByte_follows {i : Item} {post : UInt8 → List Item} (hnil : i.demand [] = .short)
    (hcons : ∀ b rest, i.demand (b :: rest) = .next (post b) rest) :
    Follows before (before - 1) extractByte [i] post := by
  intro s hs hlen
  cases hu : s.unread with
  | nil =>
    obtain ⟨s', hrun⟩ := extractByte_nil s hs hu
    rw [hrun]
    exact fun st => .short hnil
  | cons b rest =>
    obtain ⟨s', hrun, hrest, hvalid⟩ := extractByte_cons b rest s hs hu
    rw [hu, List.length_cons] at hlen
    rw [hrun]
    refine ⟨hvalid, by rw [hrest]; omega, fun st => ?_⟩
    rw [hrest]
    exact cutShort_of_next (hcons b rest) st

end Rules

section Readers

variable {bound : ℕ}

theorem readChars_follows (n : ℕ) :
    Follows bound bound (readChars n) [.chars n] fun _ => [] := by
  induction n with
  | zero => exact .unfold _ (fun _ => rfl) (.pure _ _)
  | succ n ih =>
    refine .bind ((extractByte_follows rfl fun _ _ => rfl).weaken (Nat.sub_le _ _)) ?_
    intro c _
    exact .bind ih fun rest _ => .pure _ _

theorem readString_follows : Follows bound bound readString [.string] fun _ => [] := by
  refine .bind ((extractByte_follows rfl fun _ _ => rfl).weaken (Nat.sub_le _ _)) ?_
  intro size _
  exact .bind (readChars_follows size.toNat) fun arr _ => .pure _ _

theorem readSingle_follows {t : ScalarType} {i : Item} (post : Scalar → List Item)
    (h : ∀ bytes, i.demand bytes = .next (post (scalarOf t (bytes.take t.sizeof)))
      (bytes.drop t.sizeof)) :
    Follows bound bound (readSingle t) [i] post := by
  intro s hs hlen
  obtain ⟨s', hrun, hrest, hvalid⟩ := readSingle_runs t s.unread s hs rfl
  rw [hrun]
  refine ⟨hvalid, ?_, fun st => ?_⟩
  · rw [hrest, List.length_drop]
    omega
  · rw [hrest]
    exact cutShort_of_next (h s.unread) st

/-- A value has the type it was read for. -/
theorem readValue_type {fuel : ℕ} {ty : UInt8} {a : Arg} {s s' : Bytestream}
    (h : readValue fuel ty s = .ok a s') : a.type.code = ty := by
  cases fuel with
  | zero => cases h
  | succ fuel =>
    cases hcode : ValType.ofCode ty with
    | none =>
      simp only [readValue, hcode] at h
      cases h
    | some t =>
      rw [← ValType.code_of_ofCode hcode]
      simp only [readValue, hcode] at h
      cases t with
      | scalar t =>
        obtain ⟨v, s1, hv, h⟩ := bind_eq_ok.mp h
        obtain ⟨got, s2, -, hret⟩ := bind_eq_ok.mp hv
        cases hret
        cases h
        simp only [Arg.type, scalarOf, Scalar.type_ofWord]
      | string | subObject | list =>
        obtain ⟨v, s1, -, h⟩ := bind_eq_ok.mp h
        cases h
        rfl

theorem readEntries_follows {rv : UInt8 → StreamM Arg}
    (hrv : ∀ ty, Follows bound bound (rv ty) [.value ty] fun _ => []) (n : ℕ) (res : ArgObj) :
    Follows bound bound (readEntries rv n res) [.entries n] fun _ => [] := by
  induction n generalizing res with
  | zero => exact .unfold _ (fun _ => rfl) (.pure _ _)
  | succ n ih =>
    refine .unfold _ (fun _ => rfl) ?_
    refine .bind (readString_follows.frame [.typed, .entries n]) ?_
    intro key _
    refine .bind (((extractByte_follows rfl fun _ _ => rfl).weaken (Nat.sub_le _ _)).frame
      [.entries n]) fun ty _ => ?_
    exact .bind ((hrv ty).frame [.entries n]) fun value _ => ih _

theorem readArgObj_follows {rv : UInt8 → StreamM Arg}
    (hrv : ∀ ty, Follows bound bound (rv ty) [.value ty] fun _ => []) :
    Follows (bound + 1) bound (readArgObj rv) [.object] fun _ => [] := by
  refine .bind (extractByte_follows rfl fun _ _ => rfl) ?_
  intro count _
  exact readEntries_follows hrv count.toNat []

/-- Elements of one type are never refused by `push_back`. -/
theorem readElements_follows {rv : UInt8 → StreamM Arg} {ty : UInt8}
    (hrv : Follows bound bound (rv ty) [.value ty] fun _ => [])
    (htype : ∀ s a s', rv ty s = .ok a s' → a.type.code = ty) (n : ℕ) {l : ArgList}
    (hl : l.content ≠ [] → l.contained.code = ty) :
    Follows bound bound (readElements rv ty n l) [.elements ty n] fun _ => [] := by
  induction n generalizing l with
  | zero => exact .unfold _ (fun _ => rfl) (.pure _ _)
  | succ n ih =>
    refine .unfold _ (fun _ => rfl) ?_
    refine .bind (hrv.frame [.elements ty n]) ?_
    intro value hvalue
    obtain ⟨s, s', hvalue⟩ := hvalue
    have hcode := htype s value s' hvalue
    have hpush : l.pushBack value =
        .ok { contained := value.type, content := l.content ++ [value] } :=
      ArgList.pushBack_of_type fun hne => ValType.code_injective ((hl hne).trans hcode.symm)
    have hpushed : pushed l value =
        Pure.pure { contained := value.type, content := l.content ++ [value] } := by
      rw [pushed, hpush]
    rw [hpushed]
    exact .bind (.pure _ _) fun l' hl' => by
      obtain ⟨t, t', ht⟩ := hl'
      cases ht
      exact ih fun _ => hcode

theorem readArgList_follows {rv : UInt8 → StreamM Arg}
    (hrv : ∀ ty, Follows bound bound (rv ty) [.value ty] fun _ => [])
    (htype : ∀ ty s a s', rv ty s = .ok a s' → a.type.code = ty) :
    Follows (bound + 1) bound (readArgList rv) [.list] fun _ => [] := by
  refine .bind (extractByte_follows rfl fun _ _ => rfl) ?_
  intro contained _
  refine .bind (readSingle_follows (fun v => [.elements contained v.word])
    fun _ => rfl) fun size _ => ?_
  exact readElements_follows (hrv contained) (htype contained) size.word (by simp)

/-- The type byte of a value has been read, so that there are fewer unread
bytes than when its container was entered. -/
theorem readValue_follows (fuel : ℕ) :
    ∀ ty, Follows fuel fuel (readValue fuel ty) [.value ty] fun _ => [] := by
  induction fuel with
  | zero =>
    intro ty s _ hlen
    omega
  | succ fuel ih =>
    intro ty
    cases hcode : ValType.ofCode ty with
    | none =>
      simp only [readValue, hcode]
      exact fun s hs _ =>
        ⟨hs, cutShort_of_rejected (by simp only [Item.demand, hcode])⟩
    | some t =>
      simp only [readValue, hcode]
      cases t with
      | scalar t =>
        refine .bind (readSingle_follows (fun _ => []) fun bytes => ?_) fun v _ => .pure _ _
        simp only [Item.demand, hcode]
      | string =>
        refine .unfold [.string] (fun _ => by simp only [Item.demand, hcode]) ?_
        exact .bind readString_follows fun v _ => .pure _ _
      | subObject =>
        refine .unfold [.object] (fun _ => by simp only [Item.demand, hcode]) ?_
        exact .weaken (.bind (readArgObj_follows ih) fun o _ => .pure _ _) (Nat.le_succ _)
      | list =>
        refine .unfold [.list] (fun _ => by simp only [Item.demand, hcode]) ?_
        exact .weaken (.bind (readArgList_follows ih fun _ _ _ _ => readValue_type)
          fun l _ => .pure _ _) (Nat.le_succ _)

theorem readBody_follows (major minor : UInt8) :
    Follows bound bound (readBody major minor) [.string, .object] fun _ => [] := by
  refine .bind (readString_follows.frame [.object]) ?_
  intro cmd _ s hs hlen
  have hfuel : depthBound s = .ok s.unread.length s := rfl
  rw [bind_of_ok hfuel]
  have hargs := readArgObj_follows (readValue_follows s.unread.length)
  exact ((hargs.bind fun args _ => .pure _ _).weaken (Nat.le_of_lt hlen)) s hs (Nat.lt_succ_self _)

end Readers

namespace Message

/-- The input ends inside a byte that the constructor extracts: inside the
magic number, inside the version behind a magic number that matches, or inside
a field behind a version that is accepted. -/
def CutShort : Bytes → Prop
  | b1 :: b2 :: major :: minor :: body =>
      magicNumberMatch b1 b2 = true ∧ versionFault major minor = none ∧
        Dotchat.CutShort [.string, .object] body
  | b1 :: b2 :: _ => magicNumberMatch b1 b2 = true
  | _ => True

/-- A run that returned or threw `message_error`, without having indexed past
the end, and left the offset inside the buffer. -/
def EndsInside : EStateM.Result Fault Bytestream Message → Prop
  | .ok _ s' => s'.Valid
  | .error (.thrown (.messageError _)) s' => s'.Valid
  | .error _ _ => False

/-- Decoding the stream stays inside its input. -/
def StaysInside (s : Bytestream) : Prop := EndsInside (ofStream s)

theorem endsInside_iff {after : ℕ} {pre : List Item} {bytes : Bytes}
    {r : EStateM.Result Fault Bytestream Message}
    (h : Followed (fun _ => []) after pre bytes r) :
    EndsInside r ↔ ¬ Dotchat.CutShort pre bytes := by
  rcases r with ⟨m, s⟩ | ⟨(what | _ | _ | _ | _) | _ | _, s⟩
  · obtain ⟨hvalid, -, hiff⟩ := h
    have hpre := hiff []
    rw [List.append_nil] at hpre
    exact iff_of_true hvalid (mt hpre.mp (cutShort_nil _))
  · obtain ⟨hvalid, hnot⟩ := h
    exact iff_of_true hvalid (by simpa only [List.append_nil] using hnot [])
  iterate 4 exact h.elim
  · exact iff_of_false id (not_not_intro (by simpa only [List.append_nil] using h []))
  · exact h.elim

/-- The part of the constructor behind the magic number. -/
def readVersioned : StreamM Message := do
  let major ← extractByte
  let minor ← extractByte
  match versionFault major minor with
  | some what => throw (.thrown (.messageError what))
  | none => readBody major minor

theorem ofStream_of_nil : Runs ofStream [] (.error .outOfBounds) := extractByte_nil.bind_error

theorem ofStream_of_singleton (b1 : UInt8) : Runs ofStream [b1] (.error .outOfBounds) :=
  (extractByte_cons b1 []).bind extractByte_nil.bind_error

/-- Behind two bytes the magic number decides. -/
theorem ofStream_of_magic {s : Bytestream} {b1 b2 : UInt8} {rest : Bytes} (hs : s.Valid)
    (hu : s.unread = b1 :: b2 :: rest) :
    ∃ s', s'.Valid ∧ s'.unread = rest ∧ ofStream s =
      if magicNumberMatch b1 b2 then readVersioned s'
      else .error (.thrown (.messageError "Can't parse message (missing magic number)")) s' := by
  obtain ⟨s1, h1, hu1, hs1⟩ := extractByte_cons b1 (b2 :: rest) s hs hu
  obtain ⟨s2, h2, hu2, hs2⟩ := extractByte_cons b2 rest s1 hs1 hu1
  refine ⟨s2, hs2, hu2, ?_⟩
  rw [ofStream, bind_of_ok h1, bind_of_ok h2]
  split <;> rfl

/-- Behind two more bytes the version decides. -/
theorem readVersioned_of_version {s : Bytestream} {major minor : UInt8} {body : Bytes}
    (hs : s.Valid) (hu : s.unread = major :: minor :: body) :
    ∃ s', s'.Valid ∧ s'.unread = body ∧ readVersioned s =
      match versionFault major minor with
      | some what => .error (.thrown (.messageError what)) s'
      | none => readBody major minor s' := by
  obtain ⟨s1, h1, hu1, hs1⟩ := extractByte_cons major (minor :: body) s hs hu
  obtain ⟨s2, h2, hu2, hs2⟩ := extractByte_cons minor body s1 hs1 hu1
  refine ⟨s2, hs2, hu2, ?_⟩
  rw [readVersioned, bind_of_ok h1, bind_of_ok h2]
  cases versionFault major minor <;> rfl

theorem readVersioned_of_short {s : Bytestream} (hs : s.Valid) (hlen : s.unread.length < 2) :
    ∃ s', readVersioned s = .error .outOfBounds s' := by
  cases hu : s.unread with
  | nil =>
    have hrun : Runs readVersioned [] (.error .outOfBounds) := extractByte_nil.bind_error
    exact hrun s hs hu
  | cons major rest =>
    have hnil : rest = [] := by
      rw [hu, List.length_cons] at hlen
      exact List.eq_nil_of_length_eq_zero (by omega)
    have hrun : Runs readVersioned [major] (.error .outOfBounds) :=
      (extractByte_cons major []).bind extractByte_nil.bind_error
    exact hrun s hs (by rw [hu, hnil])

theorem readVersioned_endsInside {s : Bytestream} (hs : s.Valid) :
    EndsInside (readVersioned s) ↔ ∃ major minor body, s.unread = major :: minor :: body ∧
      ¬ (versionFault major minor = none ∧ Dotchat.CutShort [.string, .object] body) := by
  match hu : s.unread with
  | [] | [_] =>
    obtain ⟨s', hrun⟩ := readVersioned_of_short hs (by simp [hu])
    rw [hrun]
    exact iff_of_false id (by simp)
  | major :: minor :: body =>
    obtain ⟨s', hs', hu', hrun⟩ := readVersioned_of_version hs hu
    rw [hrun]
    cases hversion : versionFault major minor with
    | some what => exact iff_of_true hs' ⟨major, minor, body, rfl, by simp [hversion]⟩
    | none =>
      have hbody := endsInside_iff (readBody_follows major minor s' hs' (Nat.lt_succ_self _))
      rw [hu'] at hbody
      simp only [hbody]
      constructor
      · intro hnot
        exact ⟨major, minor, body, rfl, fun h => hnot h.2⟩
      · rintro ⟨_, _, _, heq, hnot⟩ hcut
        cases heq
        exact hnot ⟨hversion, hcut⟩

/-- The decoder stays inside its input exactly when the input is not cut short. -/
theorem staysInside_iff {s : Bytestream} (hs : s.Valid) :
    StaysInside s ↔ ¬ CutShort s.unread := by
  match hu : s.unread with
  | [] =>
    obtain ⟨s', hrun⟩ := ofStream_of_nil s hs hu
    rw [StaysInside, hrun]
    exact iff_of_false id (by simp [CutShort])
  | [b1] =>
    obtain ⟨s', hrun⟩ := ofStream_of_singleton b1 s hs hu
    rw [StaysInside, hrun]
    exact iff_of_false id (by simp [CutShort])
  | b1 :: b2 :: rest =>
    obtain ⟨s', hs', hu', hrun⟩ := ofStream_of_magic hs hu
    rw [StaysInside, hrun]
    split
    · rename_i hmagic
      rw [readVersioned_endsInside hs', hu']
      match rest with
      | [] | [_] => simp [CutShort, hmagic]
      | major :: minor :: body => simp [CutShort, hmagic]
    · rename_i hmagic
      apply iff_of_true hs'
      match rest with
      | [] | [_] => simp [CutShort, hmagic]
      | major :: minor :: body => simp [CutShort, hmagic]

/-- A stream that holds the first byte of the magic number alone. -/
theorem half_magic_not_staysInside : ¬ StaysInside (fresh [0x2E]) := by
  obtain ⟨s', hrun⟩ := ofStream_of_singleton 0x2E (fresh [0x2E]) (valid_fresh _) rfl
  rw [StaysInside, hrun]
  exact id

theorem staysInside_iff_half_magic : StaysInside (fresh [0x2E]) ↔ ¬ CutShort [0x2E] :=
  staysInside_iff (valid_fresh [0x2E])

end Message
end Dotchat
