import Dotchat.ClientDialogue

/-!
Runs of the client, for any service, any input and any number of turns. Requests keep
to the session and the channel that are open, and consist of what was typed. A run
ends where `.q` is typed, a login or a signup is refused, or a call throws something
else; and once the input has failed, the menus turn forever.
-/
namespace Dotchat

open Threads (Event)

abbrev ClientEvent := Event ClientCall ClientCall.Answer CallFault

/-- What the client knows after these calls. -/
def ClientState.after (events : List ClientEvent) : ClientState := clientProtocol.after {} events

namespace Cli

open Protocol

section Runs

variable {V : Type} (service : Service V) (turns n : ℕ) (uninit : Int32) (cin : Console) (v : V)

/-- The calls of the client, oldest first. -/
def calls : List ClientEvent := trace (clientStore service) (runWaitLoop turns uninit n) (cin, v)

def outcome : Outcome CallFault Unit × Console × V :=
  (runWaitLoop turns uninit n).run (clientStore service) (cin, v)

/-- How the state of the dialogue shows in the console. -/
structure Tied (s : ClientState) (cin : Console) : Prop where
  failed : s.failed = true → cin.fail = true
  line : ∀ line, s.line = some line → line ≠ [] → cin.fail = false

variable {s : ClientState} {cin}

theorem tied_gotLine (h : Tied s cin) : Tied (s.gotLine cin.getline.1) cin.getline.2 := by
  have hlined := cin.lined
  generalize cin.getline = r at hlined ⊢
  cases hlined with
  | refused hgood => exact ⟨fun _ => rfl, by simp [ClientState.gotLine]⟩
  | line hgood hline hrest =>
    have hfail := Console.not_fail_of_good hgood
    refine ⟨?_, fun _ _ _ => hfail⟩
    intro hfailed
    exact h.failed (by simpa [ClientState.gotLine] using hfailed)
  | last hgood hline =>
    have hfail := Console.not_fail_of_good hgood
    constructor
    · intro hfailed
      have hcin := h.failed (by simpa [ClientState.gotLine] using hfailed)
      rw [hfail] at hcin
      cases hcin
    · intro line hsome hne
      obtain rfl := Option.some.inj hsome
      simpa using hne

/-- A word or a number fails the console if none is stored. -/
theorem tied_gotValue {s' : ClientState} {A : Type} {r : Option A × Console} (h : Tied s cin)
    (hline : s'.line = none) (hfailed : s'.failed = (s.failed || r.1.isNone))
    (hnone : r.1 = none → r.2.fail = true) (hfinal : cin.fail = true → r = (none, cin)) :
    Tied s' r.2 := by
  refine ⟨?_, by simp [hline]⟩
  intro hs'
  rw [hfailed, Bool.or_eq_true, Option.isNone_iff_eq_none] at hs'
  rcases hs' with hs | hr
  · rw [hfinal (h.failed hs)]
    exact h.failed hs
  · exact hnone hr

theorem couples : clientProtocol.Couples (clientStore service) (fun _ => True)
    (fun s w => Tied s w.1) := by
  rintro s c ⟨cin, v⟩ h - -
  cases c with
  | getline =>
    refine ⟨⟨_, rfl, ?_⟩, tied_gotLine h⟩
    intro hs
    rw [Console.getline_of_fail (h.failed hs)]
  | readWord =>
    refine ⟨⟨_, rfl, ?_⟩, tied_gotValue h rfl rfl Console.fail_of_readWord
      Console.readWord_of_fail⟩
    intro hs
    rw [Console.readWord_of_fail (h.failed hs)]
  | readInt =>
    refine ⟨⟨_, rfl, ?_⟩, tied_gotValue h rfl rfl Console.fail_of_readInt
      Console.readInt_of_fail⟩
    intro hs
    rw [Console.readInt_of_fail (h.failed hs)]
  | send req => exact ⟨trivial, h.failed, by simp [clientProtocol, ClientState.next,
      ClientState.gotReply]⟩

theorem runs (cin : Console) :
    Observed clientProtocol (fun _ => Ended) Escapes (clientStore service) (fun s w => Tied s w.1)
      (runWaitLoop turns uninit n) {} (cin, v) :=
  (keeps_runWaitLoop rfl).runs (couples service) ⟨by simp, by simp⟩ fun _ _ => trivial

end Runs

section Requests

/-- A service with one channel and one other user, and what is typed to invite
the user into the channel. -/
def guestService : Service Unit
  | .login _, v => (.ok { token := 7 }, v)
  | .channelList _, v => (.ok { data := [] }, v)
  | .channelDetails r, v =>
      (.ok { id := r.chanId, name := ascii "#main", ownerId := 1, desc := none, members := [1] }, v)
  | .userDetails r, v => (.ok { id := r.uid, name := ascii "guest", mutualChannels := [] }, v)
  | .inviteUser _, v => (.ok {}, v)
  | .logout _, v | .channelMsg _, v | .sendMsg _, v | .newChannel _, v | .newUser _, v
  | .changePass _, v => (.error .nonOkay, v)

def guestInput : Console := { rest := ascii ".l\nu\np\n.cs\n.c\n5\n.i\n2\ny\n.q\n" }

def guestCalls : List ClientEvent := calls guestService 3 3 0 guestInput ()

def guestInvite : Request := .inviteUser { token := 7, uid := 2, chanId := 5 }

theorem guestCalls_invite :
    guestCalls = guestCalls.take 17 ++ ⟨.send guestInvite, .ok {}⟩ :: guestCalls.drop 18 := rfl

/-- The channel that a request reads, changes or adds a message to. -/
def channelOf : Request → Option Int32
  | .channelMsg r => some r.chanId
  | .sendMsg r => some r.chanId
  | .inviteUser r => some r.chanId
  | .login _ | .logout _ | .channelList _ | .channelDetails _ | .newChannel _ | .newUser _
  | .changePass _ | .userDetails _ => none

/-- The texts and numbers of a request are those that were typed last. -/
def TypedIn (s : ClientState) : Request → Prop
  | .login r => s.words.take 2 = [r.pass, r.user]
  | .newUser r => s.words.take 2 = [r.pass, r.pass] ∧ r.name ∈ s.words
  | .changePass r => s.words.take 2 = [r.newPass, r.newPass]
  | .newChannel r => ∃ name desc, s.words.head? = some name ∧ s.line = some desc ∧
      r.name = hashed name ∧ r.desc = descOf desc
  | .sendMsg r => s.line = some r.msgCnt
  | .channelDetails r => s.number = some r.chanId
  | .userDetails r => s.number = some r.uid ∨
      ∃ chanId members, s.channel = some (chanId, members) ∧ r.uid ∈ members
  | .inviteUser r => s.user = some r.uid ∧ s.line = some (ascii "y")
  | .logout _ | .channelList _ | .channelMsg _ => True

variable {V : Type} {service : Service V} {turns n : ℕ} {uninit : Int32} {cin : Console} {v : V}
  {before rest : List ClientEvent} {req : Request} {ans : Except CallFault req.Expected}

/-- Each request is one that the client may send after what came before. -/
theorem permitted_of_calls
    (h : calls service turns n uninit cin v = before ++ ⟨.send req, ans⟩ :: rest) :
    (ClientState.after before).Permitted req := by
  have hpermits := (runs service turns n uninit v cin).permits
  rw [← calls, h] at hpermits
  exact hpermits.allowed

/-- The client logs in and signs up only outside a session, and sends everything
else with the token of the session, whatever it is answered. -/
theorem request_in_session
    (h : calls service turns n uninit cin v = before ++ ⟨.send req, ans⟩ :: rest) :
    req.token = (ClientState.after before).token :=
  (permitted_of_calls h).token

theorem request_in_session_guest :
    guestInvite.token = (ClientState.after (guestCalls.take 17)).token :=
  request_in_session guestCalls_invite

/-- The client reads messages of, sends to and invites to only the channel whose
details it was given, and only as long as it has not left it. -/
theorem channel_request_open {chanId : Int32} (hchannel : channelOf req = some chanId)
    (h : calls service turns n uninit cin v = before ++ ⟨.send req, ans⟩ :: rest) :
    ∃ members, (ClientState.after before).channel = some (chanId, members) := by
  have hperm := permitted_of_calls h
  cases hperm with
  | channelMsg _ hopen | sendMsg _ hopen _ | inviteUser _ hopen _ _ =>
    cases hchannel
    exact ⟨_, hopen⟩
  | login | newUser | logout | channelList | newChannel | changePass | channelDetails
  | userDetails => cases hchannel

theorem channel_request_open_guest :
    ∃ members, (ClientState.after (guestCalls.take 17)).channel = some (5, members) :=
  channel_request_open (by rfl) guestCalls_invite

/-- Until the input fails, a request consists of what was typed: passwords that
are set were typed twice in a row, and who is invited was found and confirmed. -/
theorem request_typed (hinput : (ClientState.after before).failed = false)
    (h : calls service turns n uninit cin v = before ++ ⟨.send req, ans⟩ :: rest) :
    TypedIn (ClientState.after before) req := by
  have hnot : ¬ (ClientState.after before).failed = true := by simp [hinput]
  have hperm := permitted_of_calls h
  cases hperm with
  | login _ htyped | newUser _ htyped | changePass _ htyped | channelDetails _ htyped
  | sendMsg _ _ htyped => exact htyped.resolve_left hnot
  | newChannel _ hname hdesc htyped =>
    obtain ⟨hword, hline⟩ := htyped.resolve_left hnot
    exact ⟨_, _, hword, hline, hname, hdesc⟩
  | userDetails _ hopen hmeant =>
    rcases hmeant with hmember | hfailed | htyped
    · exact .inr ⟨_, _, hopen, hmember⟩
    · exact absurd hfailed hnot
    · exact .inl htyped
  | inviteUser _ _ huser hyes => exact ⟨huser, hyes⟩
  | logout _ | channelList _ | channelMsg _ _ => trivial

theorem request_typed_guest : TypedIn (ClientState.after (guestCalls.take 17)) guestInvite :=
  request_typed rfl guestCalls_invite

end Requests

section Endings

variable {events : List ClientEvent}

theorem after_concat (before : List ClientEvent) (e : ClientEvent) :
    ClientState.after (before ++ [e]) = (ClientState.after before).next e := after_append

/-- The line that has just been read was read by the last call. -/
theorem last_of_line {line : Bytes} (h : (ClientState.after events).line = some line) :
    ∃ before, events = before ++ [⟨.getline, .ok (some line)⟩] := by
  rcases List.eq_nil_or_concat events with rfl | ⟨before, ⟨c, r⟩, rfl⟩
  · cases h
  · rw [List.concat_eq_append] at h ⊢
    rw [after_concat] at h
    cases c with
    | getline =>
      cases r with
      | ok got =>
        obtain rfl : got = some line := h
        exact ⟨before, rfl⟩
      | error e => cases h
    | readWord => cases r <;> cases h
    | readInt => cases r <;> cases h
    | send req => cases h

/-- A failure is that of the last call, which is a request. -/
theorem last_of_fault {e : CallFault} (h : (ClientState.after events).fault = some e) :
    ∃ before req, events = before ++ [⟨.send req, .error e⟩] := by
  rcases List.eq_nil_or_concat events with rfl | ⟨before, ⟨c, r⟩, rfl⟩
  · cases h
  · rw [List.concat_eq_append] at h ⊢
    rw [after_concat] at h
    cases c with
    | getline => cases r <;> cases h
    | readWord => cases r <;> cases h
    | readInt => cases r <;> cases h
    | send req =>
      cases r with
      | ok res => cases h
      | error e' =>
        obtain rfl : e' = e := Option.some.inj h
        exact ⟨before, req, rfl⟩

/-- How `run_wait_loop` can end, given its calls and the console it leaves. -/
def EndedBy (events : List ClientEvent) (cin : Console) : Outcome CallFault Unit → Prop
  | .returned _ =>
      (cin.fail = false ∧ ∃ before, events = before ++ [⟨.getline, .ok (some (ascii ".q"))⟩]) ∨
        ∃ before req e, events = before ++ [⟨.send req, .error e⟩] ∧ e.IsCliError ∧
          req.token = none
  | .threw e => ∃ before req, events = before ++ [⟨.send req, .error e⟩] ∧ ¬ e.IsCliError
  | .running => True

/-- The client returns after a `.q` on a console that has not failed, or when a
login or signup ends with a `cli_error`; and what it throws is the exception of
its last request, other than a `cli_error`. -/
theorem run_endedBy {V : Type} (service : Service V) (turns n : ℕ) (uninit : Int32)
    (cin : Console) (v : V) :
    EndedBy (calls service turns n uninit cin v) (outcome service turns n uninit cin v).2.1
      (outcome service turns n uninit cin v).1 := by
  obtain ⟨hpermits, hends, htied⟩ := runs service turns n uninit v cin
  rw [← calls] at hpermits hends htied
  rw [← outcome] at hends htied
  rw [← ClientState.after] at hends htied
  generalize outcome service turns n uninit cin v = out at hends htied ⊢
  obtain ⟨o, cin', v'⟩ := out
  cases o with
  | returned u =>
    rcases hends with hquit | ⟨hout, e, hfault, hcli⟩
    · exact .inl ⟨htied.line _ hquit (by decide), last_of_line hquit⟩
    · obtain ⟨before, req, hevents⟩ := last_of_fault hfault
      refine .inr ⟨before, req, e, hevents, hcli, ?_⟩
      rw [hevents] at hpermits hout
      have hperm : (ClientState.after before).Permitted req := hpermits.allowed
      rw [after_concat] at hout
      exact hperm.token.trans ((ClientState.tokenAfter_error _ req e).symm.trans hout)
  | threw e =>
    obtain ⟨before, req, hevents⟩ := last_of_fault hends.1
    exact ⟨before, req, hevents, hends.2⟩
  | running => trivial

end Endings
section FailedInput

variable {V : Type} {service : Service V} {cin : Console} {v : V} {α β : Type}
  {turns n k : ℕ} {uninit token chanId : Int32} {members : List Int32}

/-- The program does not end, and neither reads nor sends anything. -/
def Stuck (service : Service V) (cin : Console) (v : V) (p : Cli α) : Prop :=
  p.run (clientStore service) (cin, v) = (.running, cin, v)

theorem Stuck.bind {p : Cli α} (h : Stuck service cin v p) (f : α → Cli β) :
    Stuck service cin v (p >>= f) := by
  rw [Stuck, Program.run_bind, h]

theorem Stuck.catchCliError {p : Cli α} (h : Stuck service cin v p) (handler : Cli α) :
    Stuck service cin v (catchCliError p handler) := by
  rw [Stuck, Cli.catchCliError, Program.run_tryCatch, h]

theorem run_getline_of_fail (hcin : cin.fail = true) (line : Bytes) :
    (getline line).run (clientStore service) (cin, v) = (.returned line, cin, v) := by
  have hread : (invoke .getline).run (clientStore service) (cin, v) =
      (.returned none, cin, v) :=
    Program.run_invoke_of_ok (by simp [clientStore, Console.getline_of_fail hcin])
  rw [getline, Program.run_bind_of_returned hread]
  rfl

theorem run_readInt_of_fail (hcin : cin.fail = true) (i : Int32) :
    (readInt i).run (clientStore service) (cin, v) = (.returned i, cin, v) := by
  have hread : (invoke .readInt).run (clientStore service) (cin, v) =
      (.returned none, cin, v) :=
    Program.run_invoke_of_ok (by simp [clientStore, Console.readInt_of_fail hcin])
  rw [readInt, Program.run_bind_of_returned hread]
  rfl

theorem stuck_requestOption {A : Type} {options : List (String × A)}
    (hempty : optionOf options [] = none) (hcin : cin.fail = true) :
    Stuck service cin v (requestOption options n) := by
  induction n with
  | zero => rfl
  | succ n ih =>
    rw [Stuck, requestOption, Program.run_bind_of_returned (run_getline_of_fail hcin []), hempty]
    exact ih

theorem stuck_listChoice (hcin : cin.fail = true) :
    Stuck service cin v (listChoice turns uninit token n) := by
  induction n with
  | zero => rfl
  | succ n ih =>
    have hnone : ∀ text ∈ [".c", ".b", ".r", ".q"], ([] : Bytes) ≠ ascii text := by decide
    rw [Stuck, listChoice, Program.run_bind_of_returned (run_getline_of_fail hcin []),
      if_neg (hnone _ (by simp)), if_neg (hnone _ (by simp)), if_neg (hnone _ (by simp)),
      if_neg (hnone _ (by simp))]
    exact ih

theorem stuck_inChannelLoop (hcin : cin.fail = true) :
    Stuck service cin v (inChannelLoop turns uninit token chanId members n) := by
  cases n with
  | zero => rfl
  | succ n => exact (stuck_requestOption (by decide) hcin).bind _

theorem stuck_mainLoop (hcin : cin.fail = true) :
    Stuck service cin v (mainLoop turns uninit token n) := by
  cases n with
  | zero => rfl
  | succ n => exact (((stuck_requestOption (by decide) hcin).bind _).catchCliError _).bind _

theorem stuck_runWaitLoop (hcin : cin.fail = true) :
    Stuck service cin v (runWaitLoop turns uninit n) := by
  cases n with
  | zero => rfl
  | succ n =>
    refine Stuck.bind (Stuck.catchCliError (Stuck.bind ?_ _) _) _
    rw [requestLogin_eq (by decide)]
    exact stuck_requestOption (by decide) hcin

/-- On a console that has failed every menu asks for a choice forever. -/
theorem menus_stuck (service : Service V) (v : V) (turns n : ℕ)
    (uninit token chanId : Int32) (members : List Int32) (hcin : cin.fail = true) :
    Stuck service cin v (runWaitLoop turns uninit n) ∧
      Stuck service cin v (mainLoop turns uninit token n) ∧
      Stuck service cin v (listChoice turns uninit token n) ∧
      Stuck service cin v (inChannelLoop turns uninit token chanId members n) :=
  ⟨stuck_runWaitLoop hcin, stuck_mainLoop hcin, stuck_listChoice hcin, stuck_inChannelLoop hcin⟩

/-- The console after a word where a number was expected. -/
def failedInput : Console := { rest := [], fail := true }

theorem menus_stuck_guest :
    Stuck guestService failedInput () (runWaitLoop 3 0 3) ∧
      Stuck guestService failedInput () (mainLoop 3 0 7 3) ∧
      Stuck guestService failedInput () (listChoice 3 0 7 3) ∧
      Stuck guestService failedInput () (inChannelLoop 3 0 7 5 [1] 3) :=
  menus_stuck guestService () 3 3 0 7 5 [1] rfl

/-- The requests among the calls. -/
def sent (events : List ClientEvent) : List Request :=
  events.filterMap fun
    | ⟨.send req, _⟩ => some req
    | ⟨.getline, _⟩ | ⟨.readWord, _⟩ | ⟨.readInt, _⟩ => none

/-- What is tried in a turn of `choose_user`. -/
def askUser (k : ℕ) (token uid : Int32) : Cli Bool := do
  let _ ← sendUserDetails token uid
  let confirmed ← confirmUser k
  pure (!confirmed)

theorem chooseUser_succ (k : ℕ) (token uid : Int32) (n : ℕ) :
    chooseUser k token uid (n + 1) = readInt uid >>= fun uid =>
      catchException (askUser k token uid) (pure true) >>= fun invUser =>
        if invUser then chooseUser k token uid n else pure uid := rfl

theorem run_send (req : Request) : (send req).run (clientStore service) (cin, v) =
    (Threads.outcomeOf (service req v).1, cin, (service req v).2) := by
  rw [send, invoke, Program.run_invoke]
  simp only [clientStore]
  cases (service req v).1 <;> rfl

/-- Found or not, the user is not confirmed. -/
theorem run_askUser_of_fail (hcin : cin.fail = true) {uid : Int32} :
    (askUser k token uid).run (clientStore service) (cin, v) =
      ((match (service (.userDetails { token, uid }) v).1 with
        | .ok _ => .running
        | .error e => .threw e),
        cin, (service (.userDetails { token, uid }) v).2) := by
  rw [askUser, Program.run_bind, sendUserDetails, run_send]
  cases (service (.userDetails { token, uid }) v).1 with
  | error e => rfl
  | ok res => exact (stuck_requestOption (by decide) hcin).bind _

/-- A turn leaves the console as it is, and the loop goes on only if the service
has refused the request. -/
theorem run_turn_of_fail (hcin : cin.fail = true) {uid : Int32} :
    (catchException (askUser k token uid) (pure true)).run (clientStore service) (cin, v) =
      ((match (service (.userDetails { token, uid }) v).1 with
        | .ok _ => .running
        | .error e => if e.IsException then .returned true else .threw e),
        cin, (service (.userDetails { token, uid }) v).2) := by
  rw [catchException, Program.run_tryCatch, run_askUser_of_fail hcin]
  cases (service (.userDetails { token, uid }) v).1 with
  | ok res => rfl
  | error e =>
    show Program.run _ (if e.IsException then pure true else Program.throw e) _ = _
    by_cases he : e.IsException
    · rw [if_pos he]
      simp only [if_pos he]
      rfl
    · rw [if_neg he]
      simp only [if_neg he]
      rfl

theorem run_chooseUser_of_fail (hcin : cin.fail = true) {uid : Int32} :
    (chooseUser k token uid (n + 1)).run (clientStore service) (cin, v) =
      match (service (.userDetails { token, uid }) v).1 with
      | .ok _ => (.running, cin, (service (.userDetails { token, uid }) v).2)
      | .error e =>
          if e.IsException then (chooseUser k token uid n).run (clientStore service)
            (cin, (service (.userDetails { token, uid }) v).2)
          else (.threw e, cin, (service (.userDetails { token, uid }) v).2) := by
  rw [chooseUser_succ, Program.run_bind_of_returned (run_readInt_of_fail hcin uid),
    Program.run_bind, run_turn_of_fail hcin]
  cases (service (.userDetails { token, uid }) v).1 with
  | ok res => rfl
  | error e =>
    by_cases he : e.IsException
    · simp only [if_pos he]
      rfl
    · simp only [if_neg he]

theorem trace_invoke (c : ClientCall) (w : Console × V) :
    trace (clientStore service) (invoke c) w = [⟨c, (clientStore service c w).1⟩] := by
  show ⟨c, _⟩ :: trace _ _ _ = _
  cases (clientStore service c w).1 <;> rfl

/-- The calls of a turn, if the user is refused. -/
theorem trace_turn_of_refused {uid : Int32} {e : CallFault}
    (h : (service (.userDetails { token, uid }) v).1 = .error e) :
    trace (clientStore service) (catchException (askUser k token uid) (pure true)) (cin, v) =
      [⟨.send (.userDetails { token, uid }), .error e⟩] := by
  have hask : trace (clientStore service) (askUser k token uid) (cin, v) =
      [⟨.send (.userDetails { token, uid }), .error e⟩] := by
    rw [askUser, sendUserDetails, trace_bind, run_send, h, send, trace_invoke]
    simp only [clientStore, h]
    rfl
  rw [catchException, trace_tryCatch, hask]
  split
  · split <;> rfl
  · rfl

theorem sent_chooseUser_succ (hcin : cin.fail = true) {uid : Int32} {e : CallFault}
    (h : (service (.userDetails { token, uid }) v).1 = .error e) (he : e.IsException) :
    sent (trace (clientStore service) (chooseUser k token uid (n + 1)) (cin, v)) =
      .userDetails { token, uid } :: sent (trace (clientStore service) (chooseUser k token uid n)
        (cin, (service (.userDetails { token, uid }) v).2)) := by
  have hread : sent (trace (clientStore service) (readInt uid) (cin, v)) = [] := by
    rw [readInt, trace_bind, trace_invoke]
    split <;> rfl
  have hturn : (catchException (askUser k token uid) (pure true)).run (clientStore service)
      (cin, v) = (.returned true, cin, (service (.userDetails { token, uid }) v).2) := by
    rw [run_turn_of_fail hcin, h]
    simp only [if_pos he]
  rw [chooseUser_succ, trace_bind_of_returned _ _ _ (run_readInt_of_fail hcin uid),
    trace_bind_of_returned _ _ _ hturn, trace_turn_of_refused h]
  simp only [sent, List.filterMap_append] at hread ⊢
  rw [hread]
  rfl

/-- After a user ID that is not a number the client never gets past the choice of
a user, and sends the same request again and again if it is refused. -/
theorem chooseUser_of_fail (service : Service V) (v : V) (k n : ℕ) (token uid : Int32)
    (hcin : cin.fail = true) :
    (∀ uid', ((chooseUser k token uid n).run (clientStore service) (cin, v)).1 ≠ .returned uid') ∧
      ((∀ v, ∃ e, (service (.userDetails { token, uid }) v).1 = .error e ∧ e.IsException) →
        ((chooseUser k token uid n).run (clientStore service) (cin, v)).1 = .running ∧
          sent (trace (clientStore service) (chooseUser k token uid n) (cin, v)) =
            List.replicate n (.userDetails { token, uid })) := by
  induction n generalizing v with
  | zero => exact ⟨fun _ h => (nomatch h), fun _ => ⟨rfl, rfl⟩⟩
  | succ n ih =>
    have hnext := ih (service (.userDetails { token, uid }) v).2
    rw [run_chooseUser_of_fail hcin]
    refine ⟨?_, ?_⟩
    · intro uid'
      cases (service (.userDetails { token, uid }) v).1 with
      | ok res => simp
      | error e =>
        simp only
        split
        · exact hnext.1 uid'
        · simp
    · intro hrefused
      obtain ⟨e, h, he⟩ := hrefused v
      obtain ⟨hrunning, hsent⟩ := hnext.2 hrefused
      rw [sent_chooseUser_succ hcin h he, h]
      simp only [if_pos he]
      exact ⟨hrunning, by rw [hsent, List.replicate_succ]⟩

/-- A service that refuses every request. -/
def refusing : Service Unit := fun _ v => (.error .nonOkay, v)

theorem chooseUser_of_fail_refusing :
    (∀ uid', ((chooseUser 3 7 0 3).run (clientStore refusing) (failedInput, ())).1 ≠
      .returned uid') ∧
      ((∀ v, ∃ e, (refusing (.userDetails { token := 7, uid := 0 }) v).1 = .error e ∧
        e.IsException) →
        ((chooseUser 3 7 0 3).run (clientStore refusing) (failedInput, ())).1 = .running ∧
          sent (trace (clientStore refusing) (chooseUser 3 7 0 3) (failedInput, ())) =
            List.replicate 3 (.userDetails { token := 7, uid := 0 })) :=
  chooseUser_of_fail refusing () 3 3 7 0 rfl

end FailedInput
end Cli
end Dotchat
