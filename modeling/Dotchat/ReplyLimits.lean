import Dotchat.Texts

/-!
Which replies are too long to be sent. An ok reply never is. Of the error
replies, those that name a key, a number or nothing of the request are short;
three embed a command or a user name of up to 255 bytes in a longer text.
-/
namespace Dotchat

open Db Handlers

section Lengths

theorem length_ascii (text : String) : (ascii text).length = text.length := by
  simp [ascii, String.length_toList]

theorem length_toText_le (n : Int32) : (toText n).length ≤ 11 := by
  have hlo := n.le_toInt
  have hhi := n.toInt_lt
  rw [toText, length_ascii]
  cases hn : n.toInt with
  | ofNat k =>
    have hk : k < 10 ^ 11 := by
      rw [hn] at hhi
      simp only [Int.ofNat_eq_natCast] at hhi
      omega
    exact (Nat.length_repr_le_iff (by decide)).mpr hk
  | negSucc k =>
    have hk : k + 1 < 10 ^ 10 := by
      rw [hn] at hlo
      omega
    have hlen := (Nat.length_repr_le_iff (n := k + 1) (k := 10) (by decide)).mpr hk
    have hneg : toString (Int.negSucc k) = "-" ++ (k + 1).repr := rfl
    rw [hneg, String.length_append]
    have hone : "-".length = 1 := rfl
    omega

theorem length_cString_le_of {what : Bytes} {n : ℕ} (h : what.length ≤ n) :
    (cString what).length ≤ n :=
  (length_cString_le what).trans h

theorem length_tokenText_le (key : Int32) : (tokenText key).length ≤ 0xFF := by
  have h := length_toText_le key
  have h1 : (ascii "Token `").length = 7 := by decide
  have h2 : (ascii "` is invalid or has expired. Please log-in again.").length = 49 := by decide
  simp only [tokenText, List.length_append]
  omega

/-- The text of a malformed request is short. -/
theorem length_keyText_le {key : String} {what : Bytes} (h : key ∈ Request.keys)
    (hwhat : what = missingText key ∨ what = typeText key) : what.length ≤ 0xFF := by
  have hall : ∀ key ∈ Request.keys,
      (missingText key).length ≤ 0xFF ∧ (typeText key).length ≤ 0xFF := by decide
  rcases hwhat with rfl | rfl
  · exact (hall key h).1
  · exact (hall key h).2

theorem length_denial_le {db : Database} {u : User} {req : Request} {what : Bytes}
    (h : Denies db u req what) : what.length ≤ 0xFF := by
  cases h with
  | channelMsg _ | sendMsg _ | detailsNoMember _ | detailsNoChannel _ _ | inviteNoOwner _ _
  | inviteJoined _ _ _ => decide
  | userDetails _ =>
    have h := length_toText_le ‹UserDetailsRequest›.uid
    have h1 : (ascii "User with ID `").length = 14 := by decide
    have h2 : (ascii "` doesn't exist.").length = 16 := by decide
    simp only [noUserText, List.length_append]
    omega
  | inviteNoChannel _ =>
    have h := length_toText_le ‹InviteUserRequest›.chanId
    have h1 : (ascii "There is no channel with ID ").length = 28 := by decide
    have h2 : (ascii ".").length = 1 := by decide
    simp only [noChannelText, List.length_append]
    omega
  | inviteNoUser _ _ _ =>
    have h := length_toText_le ‹InviteUserRequest›.uid
    have h1 : (ascii "There is no user with ID ").length = 25 := by decide
    have h2 : (ascii ".").length = 1 := by decide
    simp only [noInviteeText, List.length_append]
    omega

end Lengths

section Errors

/-- An error reply can be sent exactly when its reason fits. -/
theorem error_sendable_iff (reason : Bytes) :
    (ErrorResponse.toMessage { reason := reason }).Sendable ↔ reason.length ≤ 0xFF := by
  have hargs : (ErrorResponse.toMessage { reason := reason }).args =
      [(ascii "reason", .string reason)] := rfl
  have hcmd : (ErrorResponse.toMessage { reason := reason }).cmd = ascii "err" := rfl
  rw [Message.Sendable, Message.argsValue, hargs, hcmd]
  constructor
  · rintro ⟨-, hobj⟩
    obtain ⟨-, -, hvals⟩ := Arg.everywhere_subObject.mp hobj
    exact Arg.everywhere_string.mp (hvals _ List.mem_cons_self)
  · intro h
    refine ⟨by decide, .subObject (by simp) ?_ ?_⟩
    · simpa using by decide
    · simpa using h

theorem excToMessage_eq (what : Bytes) :
    excToMessage what = ErrorResponse.toMessage { reason := cString what } := rfl

/-- A text without NUL is the reason that is sent. -/
theorem cString_text {pre post v : Bytes} (hpre : 0 ∉ pre) (hv : 0 ∉ v) (hpost : 0 ∉ post) :
    cString (pre ++ v ++ post) = pre ++ v ++ post := by
  apply cString_of_no_nul
  simp only [List.mem_append, not_or]
  exact ⟨⟨hpre, hv⟩, hpost⟩

end Errors

/-- The requests whose reply embeds a string that leaves no room for the text
around it. -/
inductive Oversized (db : Database) (m : Message) : Prop
  | command (h : ¬ KnownCommand m) (hlen : 233 < m.cmd.length)
  | user {r : LoginRequest} (h : (Request.login r).Parses m) (hnone : db.usersNamed r.user = [])
      (hlen : 233 < r.user.length)
  | pass {r : LoginRequest} {u : User} {others : List User} (h : (Request.login r).Parses m)
      (hnamed : db.usersNamed r.user = u :: others) (hpass : u.pass ≠ r.pass)
      (hlen : 229 < r.user.length)

section Replies

variable {env : Env} {turns : ℕ} {w w' : World} {m reply : Message}

theorem sendable_of_short {what : Bytes} (h : what.length ≤ 0xFF) :
    (ErrorResponse.toMessage { reason := cString what }).Sendable :=
  (error_sendable_iff _).mpr (length_cString_le_of h)

/-- Error replies around a string of the request: sendable when text and string
fit together. -/
theorem embedded_sendable_iff {pre post v : Bytes} (hpre : 0 ∉ pre) (hv : 0 ∉ v)
    (hpost : 0 ∉ post) :
    (ErrorResponse.toMessage { reason := cString (pre ++ v ++ post) }).Sendable ↔
      pre.length + v.length + post.length ≤ 0xFF := by
  rw [error_sendable_iff, cString_text hpre hv hpost, List.length_append, List.length_append]

theorem invalidCommand_sendable_iff {cmnd : Bytes} (h : 0 ∉ cmnd) :
    (invalidCommand cmnd).Sendable ↔ cmnd.length ≤ 233 := by
  have h1 : (ascii "Command `").length = 9 := by decide
  have h2 : (ascii "` is invalid.").length = 13 := by decide
  rw [invalidCommand, excToMessage_eq, embedded_sendable_iff (by decide) h (by decide)]
  omega

theorem unknownUser_sendable_iff {user : Bytes} (h : 0 ∉ user) :
    (ErrorResponse.toMessage { reason := cString (unknownUserText user) }).Sendable ↔
      user.length ≤ 233 := by
  have h1 : (ascii "User `").length = 6 := by decide
  have h2 : (ascii "` doesn't exist.").length = 16 := by decide
  rw [unknownUserText, embedded_sendable_iff (by decide) h (by decide)]
  omega

theorem wrongPass_sendable_iff {user : Bytes} (h : 0 ∉ user) :
    (ErrorResponse.toMessage { reason := cString (wrongPassText user) }).Sendable ↔
      user.length ≤ 229 := by
  have h1 : (ascii "Password for `").length = 14 := by decide
  have h2 : (ascii "` incorrect.").length = 12 := by decide
  rw [wrongPassText, embedded_sendable_iff (by decide) h (by decide)]
  omega

theorem response_sendable {s : Response} (h : s.Textual) (hs : s.toMessage = .ok reply) :
    reply.Sendable := by
  obtain ⟨mods, hmods, htextual⟩ := h
  rw [hs] at hmods
  cases hmods
  have hcmd : (OkayResponse.okayWith mods).cmd = ascii "ok" := rfl
  exact ⟨by rw [hcmd]; decide, htextual.mono (fun _ h => h.1) (fun _ h => h.2) (fun _ _ => trivial)⟩

theorem Oversized.not_sendable (hm : m.Canonical) (hover : Oversized w.db m)
    (h : serve env turns m w = (.returned reply, w')) : ¬ reply.Sendable := by
  cases hover with
  | command hunknown hlen =>
    rw [serve, dispatch_of_unknown hunknown] at h
    cases h
    rw [invalidCommand_sendable_iff hm.1.2]
    omega
  | user hparse hnone hlen =>
    obtain ⟨o, v, hhandled, -, hrun⟩ := serve_of_parses env turns w hparse
    rw [h] at hrun
    cases hhandled with
    | rejected ht _ _ | orphaned ht _ | refused ht _ _ | answered ht _ _ => cases ht
    | unknownUser _ =>
      cases hrun
      rw [unknownUser_sendable_iff (LoginRequest.canonicalText hm hparse).2]
      omega
    | wrongPass hnamed _ | loginStuck hnamed _ _ | loginOrphaned hnamed _ _ _ _
    | loggedIn hnamed _ _ _ _ => simp [hnone] at hnamed
  | pass hparse hnamed hpass hlen =>
    obtain ⟨o, v, hhandled, -, hrun⟩ := serve_of_parses env turns w hparse
    rw [h] at hrun
    cases hhandled with
    | rejected ht _ _ | orphaned ht _ | refused ht _ _ | answered ht _ _ => cases ht
    | unknownUser hnone => simp [hnone] at hnamed
    | wrongPass _ _ =>
      cases hrun
      rw [wrongPass_sendable_iff (LoginRequest.canonicalText hm hparse).2]
      omega
    | loginStuck hnamed' hpass' _ | loginOrphaned hnamed' hpass' _ _ _
    | loggedIn hnamed' hpass' _ _ _ =>
      rw [hnamed] at hnamed'
      cases hnamed'
      exact absurd hpass' hpass

theorem sendable_of_not_oversized (hw : Texts w.db) (hm : m.Canonical)
    (hover : ¬ Oversized w.db m) (h : serve env turns m w = (.returned reply, w')) :
    reply.Sendable := by
  have hstep := dispatched env turns m w
  rw [← serve, h] at hstep
  generalize hr : ((.returned reply, w') : Outcome Exc Message × World) = r at hstep
  cases hstep with
  | unknown hunknown =>
    cases hr
    rw [invalidCommand_sendable_iff hm.1.2]
    exact Nat.not_lt.mp fun hlen => hover (.command hunknown hlen)
  | malformed hkey hwhat =>
    cases hr
    exact sendable_of_short (length_keyText_le hkey hwhat)
  | handled hparse hrun =>
    rename_i req o v
    have hhandled := handled env turns w req
    rw [hrun] at hhandled
    have hreply : replyOf Response.toMessage o = .returned reply := (congrArg Prod.fst hr).symm
    cases o with
    | running => cases hreply
    | returned s =>
      obtain ⟨mods, hmods⟩ := s.toMessage_eq_ok
      simp only [replyOf, hmods] at hreply
      cases hreply
      exact response_sendable (handled_textual hw hhandled) hmods
    | threw e =>
      cases hhandled with
      | rejected _ _ _ =>
        cases hreply
        exact sendable_of_short (length_tokenText_le _)
      | refused _ _ hdenial =>
        cases hreply
        exact sendable_of_short (length_denial_le hdenial)
      | orphaned _ _ | loginOrphaned _ _ _ _ _ => cases hreply
      | channelConflict _ hins =>
        obtain ⟨-, rfl⟩ := Database.insertChannel_eq_error hins
        cases hreply
      | userConflict hins =>
        obtain ⟨-, rfl⟩ := Database.insertUser_eq_error hins
        cases hreply
      | passConflict _ hupd =>
        obtain ⟨-, rfl⟩ := Database.updateUser_eq_error hupd
        cases hreply
      | unknownUser hnone =>
        cases hreply
        rw [unknownUser_sendable_iff (LoginRequest.canonicalText hm hparse).2]
        exact Nat.not_lt.mp fun hlen => hover (.user hparse hnone hlen)
      | wrongPass hnamed hpass =>
        cases hreply
        rw [wrongPass_sendable_iff (LoginRequest.canonicalText hm hparse).2]
        exact Nat.not_lt.mp fun hlen => hover (.pass hparse hnamed hpass hlen)

end Replies

/-- In a state reached by decoded messages, the reply to a decoded message can be
sent exactly when it does not embed an oversized string. -/
theorem reply_sent_iff {env : Env} {turns : ℕ} {w w' : World} {m reply : Message}
    (hw : Reachable env Decoded w) (hm : Decoded m)
    (h : serve env turns m w = (.returned reply, w')) :
    (∀ strm, ∃ strm', reply.sendTo strm = .ok () strm') ↔ ¬ Oversized w.db m := by
  have hsent : (∀ strm, ∃ strm', reply.sendTo strm = .ok () strm') ↔ reply.Sendable := by
    constructor
    · intro h
      obtain ⟨strm', hsend⟩ := h {}
      exact (Message.sendTo_eq_ok hsend).1
    · exact fun h strm => ⟨_, Message.sendTo_emits h strm⟩
  rw [hsent]
  constructor
  · exact fun hsend hover => hover.not_sendable hm.canonical h hsend
  · exact fun hover => sendable_of_not_oversized hw.texts hm.canonical hover h

/-- A message with a command of 234 bytes, none of which is a command of the
server. -/
def longCommand : Message := .ofValues (List.replicate 234 0x61) []

theorem length_longCommand : longCommand.cmd.length = 234 := List.length_replicate

theorem longCommand_canonical : longCommand.Canonical := by
  refine ⟨⟨by rw [length_longCommand]; decide, fun h => ?_⟩,
    .subObject ⟨OrderedMap.ordered_nil, by decide⟩ (fun _ h => nomatch h) (fun _ h => nomatch h)⟩
  exact absurd (List.eq_of_mem_replicate h) (by decide)

theorem longCommand_decoded : Decoded longCommand := by
  obtain ⟨s', hrun, -, -⟩ := Message.ofStream_wire longCommand_canonical []
    (Bytestream.fresh (longCommand.wire ++ [])) (Bytestream.valid_fresh _) rfl
  exact ⟨_, s', hrun⟩

theorem serve_longCommand : serve twoDaysLater 1 longCommand {} =
    (.returned (invalidCommand longCommand.cmd), {}) := by
  rw [serve, dispatch_of_unknown (by decide +kernel)]
  rfl

/-- The reply to `longCommand` is refused by the encoder. -/
theorem longCommand_not_sent :
    Reachable twoDaysLater Decoded {} ∧ Decoded longCommand ∧
      serve twoDaysLater 1 longCommand {} =
        (.returned (invalidCommand longCommand.cmd), {}) ∧
      ¬ ∀ strm, ∃ strm', (invalidCommand longCommand.cmd).sendTo strm = .ok () strm' := by
  refine ⟨.refl, longCommand_decoded, serve_longCommand, ?_⟩
  intro h
  obtain ⟨strm', hsend⟩ := h {}
  have hlen := (invalidCommand_sendable_iff longCommand_canonical.1.2).mp
    (Message.sendTo_eq_ok hsend).1
  rw [length_longCommand] at hlen
  omega

theorem reply_sent_iff_longCommand :
    (∀ strm, ∃ strm', (invalidCommand longCommand.cmd).sendTo strm = .ok () strm') ↔
      ¬ Oversized ({} : World).db longCommand :=
  reply_sent_iff .refl longCommand_decoded serve_longCommand

end Dotchat
