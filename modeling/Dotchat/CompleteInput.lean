import Dotchat.DecoderBounds

/-!
Which inputs the decoder reads. The fields of a message are read one after the
other, each from the bytes that the one before it has left, and the message is
returned when no field runs short or is rejected. That a field runs short is
known with any fields behind it; so a reader that leaves no field has read
complete ones.
-/
namespace Dotchat

open FaultState Bytestream

/-- All of the fields are there, one behind the other. -/
inductive Complete : List Item → Bytes → Prop
  | done (bytes : Bytes) : Complete [] bytes
  | next {i : Item} {st items : List Item} {bytes rest : Bytes}
      (h : i.demand bytes = .next items rest) (hrest : Complete (items ++ st) rest) :
      Complete (i :: st) bytes

section Complete

variable {pre : List Item} {bytes : Bytes}

/-- Behind complete fields there are bytes on which all else depends. -/
theorem Complete.rest (h : Complete pre bytes) :
    ∃ rest, ∀ st, CutShort (pre ++ st) bytes ↔ CutShort st rest := by
  induction h with
  | done bytes => exact ⟨bytes, fun _ => Iff.rfl⟩
  | next h _ ih =>
    obtain ⟨rest', hrest'⟩ := ih
    refine ⟨rest', ?_⟩
    intro st
    rw [← hrest' st, List.append_assoc]
    exact cutShort_of_next h _

theorem Complete.not_cutShort (h : Complete pre bytes) : ¬ CutShort pre bytes := by
  obtain ⟨rest, hrest⟩ := h.rest
  have hnil := hrest []
  rw [List.append_nil] at hnil
  exact mt hnil.mp (cutShort_nil rest)

/-- More characters than there are bytes. -/
theorem cutShort_chars : ∀ bytes : Bytes, CutShort [.chars (bytes.length + 1)] bytes
  | [] => .short rfl
  | _ :: rest => .next rfl (cutShort_chars rest)

/-- If the bytes run out behind some fields and not in them, these are complete. -/
theorem complete_of_cutShort {all more : List Item} (h : CutShort all bytes)
    (hall : all = pre ++ more) (hpre : ¬ CutShort pre bytes) : Complete pre bytes := by
  induction h generalizing pre with
  | short hshort =>
    cases pre with
    | nil => exact .done _
    | cons i st =>
      cases hall
      exact absurd (.short hshort) hpre
  | next hnext _ ih =>
    cases pre with
    | nil => exact .done _
    | cons i st =>
      cases hall
      refine .next hnext (ih (List.append_assoc _ _ _).symm ?_)
      exact fun hcut => hpre (.next hnext hcut)

/-- A reader that leaves no field returns exactly from complete ones. -/
theorem Followed.ok_iff_complete {α : Type} {after : ℕ}
    {r : EStateM.Result Fault Bytestream α} (h : Followed (fun _ => []) after pre bytes r) :
    (∃ a s', r = .ok a s') ↔ Complete pre bytes := by
  rcases r with ⟨a, s'⟩ | ⟨(what | _ | _ | _ | _) | _ | _, s'⟩
  · obtain ⟨-, -, hiff⟩ := h
    refine iff_of_true ⟨a, s', rfl⟩ ?_
    have hnil := hiff []
    rw [List.append_nil] at hnil
    exact complete_of_cutShort ((hiff _).mpr (cutShort_chars s'.unread)) rfl
      (mt hnil.mp (cutShort_nil _))
  · obtain ⟨-, hnot⟩ := h
    refine iff_of_false nofun ?_
    intro hcomplete
    obtain ⟨rest, hrest⟩ := hcomplete.rest
    exact hnot _ ((hrest _).mpr (cutShort_chars rest))
  iterate 4 exact h.elim
  · refine iff_of_false nofun ?_
    intro hcomplete
    have hcut := h []
    rw [List.append_nil] at hcut
    exact hcomplete.not_cutShort hcut
  · exact h.elim

end Complete

namespace Message

/-- A complete message stands at the start of the input: the magic number, a
version that is not newer, and all fields. -/
def Complete : Bytes → Prop
  | b1 :: b2 :: major :: minor :: body =>
      magicNumberMatch b1 b2 = true ∧ versionFault major minor = none ∧
        Dotchat.Complete [.string, .object] body
  | _ => False

theorem readVersioned_ok_iff {s : Bytestream} (hs : s.Valid) :
    (∃ m s', readVersioned s = .ok m s') ↔ ∃ major minor body, s.unread = major :: minor :: body ∧
      versionFault major minor = none ∧ Dotchat.Complete [.string, .object] body := by
  match hu : s.unread with
  | [] | [_] =>
    obtain ⟨s', hrun⟩ := readVersioned_of_short hs (by simp [hu])
    rw [hrun]
    exact iff_of_false nofun (by simp)
  | major :: minor :: body =>
    obtain ⟨s', hs', hu', hrun⟩ := readVersioned_of_version hs hu
    rw [hrun]
    have hbody := (readBody_follows major minor s' hs' (Nat.lt_succ_self _)).ok_iff_complete
    rw [hu'] at hbody
    cases hversion : versionFault major minor with
    | some what => exact iff_of_false nofun (by simp [hversion])
    | none =>
      simp only [hbody]
      constructor
      · exact fun hcomplete => ⟨major, minor, body, rfl, hversion, hcomplete⟩
      · rintro ⟨_, _, _, heq, -, hcomplete⟩
        cases heq
        exact hcomplete

/-- The decoder returns exactly from the inputs that start with a complete
message. -/
theorem ofStream_ok_iff_complete {s : Bytestream} (hs : s.Valid) :
    (∃ m s', ofStream s = .ok m s') ↔ Complete s.unread := by
  match hu : s.unread with
  | [] =>
    obtain ⟨s', hrun⟩ := ofStream_of_nil s hs hu
    rw [hrun]
    exact iff_of_false nofun id
  | [b1] =>
    obtain ⟨s', hrun⟩ := ofStream_of_singleton b1 s hs hu
    rw [hrun]
    exact iff_of_false nofun id
  | b1 :: b2 :: rest =>
    obtain ⟨s', hs', hu', hrun⟩ := ofStream_of_magic hs hu
    rw [hrun]
    split
    · rename_i hmagic
      rw [readVersioned_ok_iff hs', hu']
      match rest with
      | [] | [_] => simp [Complete]
      | major :: minor :: body => simp [Complete, hmagic]
    · rename_i hmagic
      apply iff_of_false nofun
      match rest with
      | [] | [_] => exact id
      | major :: minor :: body => exact fun h => hmagic h.1

end Message
end Dotchat
