import Dotchat.Authentication

/-!
The order of the messages of a channel. The channel keeps its messages in the
order in which they were sent, and `channel_msg` lists them by their stamps,
which are the milliseconds of the system clock cut to 32 bits and stored as a
signed number. So the listing is in sending order as long as these do not fall.
-/
namespace Dotchat

open Db Handlers

/-- A message that `send_msg` has accepted, and the moment at which it read the
clock for it. -/
structure Posted where
  sender : Int32
  content : Bytes
  sent : Instant
  deriving DecidableEq

/-- Whole milliseconds of the system clock. -/
def Instant.millis (t : Instant) : Int := (t.system / 1000000).toInt

/-- The stamp of a message in the table: the milliseconds as a signed number of 32 bits. -/
def Instant.stamp (t : Instant) : Int := t.millis.bmod (2 ^ 32)

/-- What a step has posted in the channel: a send_msg that was answered ok. -/
def Step.posted (env : Env) (c : Int32) (s : Step) : Option Posted :=
  match MessageSendRequest.ofMessage s.msg with
  | .error _ => none
  | .ok r =>
      match ((checkSessionKey r.token).run (perform env) s.before).1 with
      | .returned u =>
          if r.chanId = c ∧ s.reply env = .returned (OkayResponse.toMessage {}) then
            some { sender := u.id, content := r.msgCnt, sent := env.clock (s.before.readings + 1) }
          else none
      | _ => none

/-- The messages posted in a channel, in the order in which they were sent. -/
def posted (env : Env) (c : Int32) (steps : List Step) : List Posted :=
  steps.reverse.filterMap (Step.posted env c)

/-- The message as a response lists it. -/
def Posted.listed (p : Posted) : ListedMessage :=
  { sender := p.sender, sentWhen := p.sent.now, cnt := p.content }

/-- A row of the table as a response lists it. -/
def rowListed (m : StoredMessage) : ListedMessage :=
  { sender := m.sender, sentWhen := m.sentWhen, cnt := m.content }

section Posting

variable {env : Env} {c : Int32} {s : Step} {p : Posted}

theorem Instant.now_toNat (t : Instant) : (t.now.toNat : Int) = t.millis % 2 ^ 32 := by
  have hint := BitVec.toInt_eq_toNat_cond (t.system / 1000000).toBitVec
  have hnow : t.now.toNat = (t.system / 1000000).toBitVec.toNat % 2 ^ 32 := rfl
  have hmillis : t.millis = (t.system / 1000000).toBitVec.toInt := rfl
  rw [hnow, hmillis, hint]
  split <;> omega

/-- The column holds the stamp. -/
theorem Instant.toInt_now (t : Instant) : t.now.toInt32.toInt = t.stamp := by
  have hcolumn : t.now.toInt32.toInt = (t.now.toNat : Int).bmod (2 ^ 32) :=
    BitVec.toInt_eq_toNat_bmod t.now.toBitVec
  rw [hcolumn, t.now_toNat, Instant.stamp]
  exact Int.emod_bmod _ _

theorem Step.posted_eq_some : s.posted env c = some p ↔ ∃ r u,
    (Request.sendMsg r).Parses s.msg ∧ Accepted env s.before r.token u ∧ r.chanId = c ∧
      s.reply env = .returned (OkayResponse.toMessage {}) ∧
      p = { sender := u.id, content := r.msgCnt, sent := env.clock (s.before.readings + 1) } := by
  constructor
  · intro h
    unfold Step.posted at h
    split at h
    · cases h
    rename_i r hparse
    split at h
    · rename_i u hcheck
      split at h
      · rename_i hposted
        cases h
        exact ⟨r, u, hparse, accepted_iff.mpr hcheck, hposted.1, hposted.2, rfl⟩
      · cases h
    · cases h
  · rintro ⟨r, u, hparse, hu, hc, hreply, rfl⟩
    have hof : MessageSendRequest.ofMessage s.msg = .ok r := hparse
    simp only [Step.posted, hof, hu.run, hc, hreply, and_self, if_true]

/-- A message that counts as posted has been inserted. -/
theorem Step.inserted (h : s.posted env c = some p) : (s.after env).db =
    s.before.db.insertMessage p.sender c p.content p.sent.now := by
  obtain ⟨r, u, hparse, hu, rfl, hreply, rfl⟩ := Step.posted_eq_some.mp h
  obtain ⟨o, hhandled, ho⟩ := Step.handled env hparse
  rw [ho] at hreply
  generalize s.after env = w' at hhandled
  cases hhandled with
  | rejected _ _ _ | refused _ _ _ => exact absurd (Outcome.returned.inj hreply) (error_ne_okay _)
  | orphaned _ _ => cases hreply
  | answered _ _ hs => cases hs
  | sentMsg hu' _ =>
    obtain rfl := hu.unique hu'
    rfl

/-- A message that is written counts as posted. -/
theorem Step.messages_of_not_posted (h : s.posted env c = none) :
    (s.after env).db.messages.filter (·.channel = c) =
      s.before.db.messages.filter (·.channel = c) := by
  obtain ⟨db, hdb, hsame | ⟨req, o, hparse, hreply, hwritten⟩⟩ := Step.written env s
  · rw [hdb, hsame]
  rw [hdb]
  cases hwritten with
  | @message r u hu hmem =>
    have hother : r.chanId ≠ c := by
      intro hc
      have hposted := Step.posted_eq_some.mpr ⟨r, u, hparse, hu, hc, hreply, rfl⟩
      rw [h] at hposted
      cases hposted
    simp [Database.insertMessage, hother]
  | nothing | session _ _ _ _ _ | noSessions _ | channel _ _ | member _ _ _ _ _ | password _
  | user _ => rfl

/-- The channel keeps what was posted in it, in sending order. -/
theorem Run.messages {steps : List Step} {w : World} (h : Run env steps w) (c : Int32) :
    (w.db.messages.filter (·.channel = c)).map rowListed =
      (posted env c steps).map Posted.listed := by
  induction h with
  | nil => rfl
  | @serve earlier w _ turns m ih =>
    show ((Step.after env ⟨w, turns, m⟩).db.messages.filter (·.channel = c)).map rowListed = _
    rw [posted, List.reverse_cons, List.filterMap_append, List.map_append, ← posted, ← ih]
    cases hposted : Step.posted env c ⟨w, turns, m⟩ with
    | none =>
      rw [Step.messages_of_not_posted hposted]
      simp [hposted]
    | some p =>
      rw [Step.inserted hposted]
      simp [hposted, Database.insertMessage, rowListed, Posted.listed]

end Posting

/-- The listing is in sending order exactly when the stamps, which are the
milliseconds cut to a signed number of 32 bits, do not fall. -/
theorem channelMsg_in_order_iff {env : Env} {steps : List Step} {w w' : World} {turns : ℕ}
    {r : ChannelMsgRequest} {res : ChannelMsgResponse} (h : Run env steps w)
    (hres : (respond turns (.channelMsg r)).run (perform env) w =
      (.returned (.channelMsg res), w')) :
    res.msgs = (posted env r.chanId steps).map Posted.listed ↔
      (posted env r.chanId steps).Pairwise fun p q => p.sent.stamp ≤ q.sent.stamp := by
  have hlisted : res.msgs = (w.db.messagesOf r.chanId).map rowListed := by
    have hhandled := handled env turns w (.channelMsg r)
    rw [hres] at hhandled
    cases hhandled with
    | answered _ _ hs =>
      cases hs
      rfl
  have hsorted : (w.db.messagesOf r.chanId).map rowListed =
      ((posted env r.chanId steps).map Posted.listed).insertionSort
        fun m m' => m.sentWhen.toInt32.toInt ≤ m'.sentWhen.toInt32.toInt := by
    rw [← h.messages, Database.messagesOf]
    exact List.map_insertionSort _ _ _ _ fun _ _ _ _ => Iff.rfl
  have hpairs : ((posted env r.chanId steps).Pairwise fun p q => p.sent.stamp ≤ q.sent.stamp) ↔
      ((posted env r.chanId steps).map Posted.listed).Pairwise
        fun m m' => m.sentWhen.toInt32.toInt ≤ m'.sentWhen.toInt32.toInt := by
    simp only [List.pairwise_map, Posted.listed, Instant.toInt_now]
  rw [hlisted, hsorted, hpairs]
  constructor
  · intro heq
    rw [← heq]
    exact List.pairwise_insertionSort _ _
  · exact List.Pairwise.insertionSort_eq

theorem start_of_machine : 0 < 2 ^ 63 := by
  decide

/-- The system clock shows 5000 milliseconds, and 2^32 + 1000 after the third reading. -/
def wrapping : Env where
  clock
    | 0 | 1 | 2 => ⟨0, 5000000000, start_of_machine⟩
    | _ => ⟨0, 4294968296000000, start_of_machine⟩
  rand _ := 7

def note (text : String) : Message :=
  MessageSendRequest.toMessage { token := 7, chanId := 1, msgCnt := ascii text }

def wrappedLogin : Step := ⟨{}, 1, masterLogin⟩

def wrappedFirst : Step := ⟨wrappedLogin.after wrapping, 1, note "a"⟩

def wrappedSecond : Step := ⟨wrappedFirst.after wrapping, 1, note "b"⟩

/-- A login and two messages, the second one long after the first. -/
def wrappedSteps : List Step := [wrappedSecond, wrappedFirst, wrappedLogin]

theorem wrappedSteps_run : Run wrapping wrappedSteps (wrappedSecond.after wrapping) :=
  .serve (.serve (.serve .nil 1 masterLogin) 1 (note "a")) 1 (note "b")

/-- The second message is listed before the first. -/
def wrappedListing : ChannelMsgResponse :=
  { msgs := [⟨1, 1000, ascii "b"⟩, ⟨1, 5000, ascii "a"⟩] }

theorem wrappedListing_returned :
    ((respond 1 (.channelMsg { token := 7, chanId := 1 })).run (perform wrapping)
      (wrappedSecond.after wrapping)).1 = .returned (.channelMsg wrappedListing) := by
  decide +kernel

theorem wrappedListing_not_in_order :
    Run wrapping wrappedSteps (wrappedSecond.after wrapping) ∧
      ((posted wrapping 1 wrappedSteps).Pairwise fun p q => p.sent.millis < q.sent.millis) ∧
      ((respond 1 (.channelMsg { token := 7, chanId := 1 })).run (perform wrapping)
        (wrappedSecond.after wrapping)).1 = .returned (.channelMsg wrappedListing) ∧
      wrappedListing.msgs ≠ (posted wrapping 1 wrappedSteps).map Posted.listed := by
  refine ⟨wrappedSteps_run, ?_, wrappedListing_returned, ?_⟩
  · decide +kernel
  · decide +kernel

theorem channelMsg_in_order_iff_wrapped :
    wrappedListing.msgs = (posted wrapping 1 wrappedSteps).map Posted.listed ↔
      (posted wrapping 1 wrappedSteps).Pairwise fun p q => p.sent.stamp ≤ q.sent.stamp :=
  channelMsg_in_order_iff (r := { token := 7, chanId := 1 }) wrappedSteps_run
    (Prod.ext wrappedListing_returned rfl)

end Dotchat
