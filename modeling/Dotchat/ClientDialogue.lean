import Dotchat.ClientMenus

/-!
What the client may ask the server for, given what the user has typed and what
the server has answered so far. A session opens with the answer to a login and
closes with that to a logout; a channel is open from the answer to a request for
its details until anything but a request about it follows. The menus keep to
this, whatever is typed and whatever is answered.
-/
namespace Dotchat

open Threads (Event)

/-- What the calls of a client so far amount to. -/
structure ClientState where
  /-- the token of the session -/
  token : Option Int32 := none
  /-- the channel that is open, and its members -/
  channel : Option (Int32 × List Int32) := none
  /-- the user whose details have come in, if only lines were read since -/
  user : Option Int32 := none
  /-- the line that has just been read -/
  line : Option Bytes := none
  /-- the words that were read, the last one first -/
  words : List Bytes := []
  /-- the number that was read last -/
  number : Option Int32 := none
  /-- a reading has stored nothing -/
  failed : Bool := false
  /-- why the last call failed -/
  fault : Option CallFault := none

namespace ClientState

def tokenAfter : Option Int32 → (req : Request) → Except CallFault req.Expected → Option Int32
  | _, .login _, .ok res => some res.token
  | _, .logout _, .ok _ => none
  | token, _, _ => token

/-- A request about the channel keeps it open unless it fails, and one for the
details of a user in any case. -/
def channelAfter : Option (Int32 × List Int32) → (req : Request) →
    Except CallFault req.Expected → Option (Int32 × List Int32)
  | _, .channelDetails r, .ok res => some (r.chanId, res.members)
  | channel, .channelMsg _, .ok _ => channel
  | channel, .sendMsg _, .ok _ => channel
  | channel, .inviteUser _, .ok _ => channel
  | channel, .userDetails _, _ => channel
  | _, _, _ => none

def userAfter : (req : Request) → Except CallFault req.Expected → Option Int32
  | .userDetails r, .ok _ => some r.uid
  | _, _ => none

def faultOf {α : Type} : Except CallFault α → Option CallFault
  | .ok _ => none
  | .error e => some e

variable (s : ClientState)

def gotLine (got : Option Bytes) : ClientState :=
  { s with line := got, failed := s.failed || got.isNone, fault := none }

def gotWord (got : Option Bytes) : ClientState :=
  { s with
    words := got.toList ++ s.words, user := none, line := none
    failed := s.failed || got.isNone, fault := none }

def gotNumber (got : Option Int32) : ClientState :=
  { s with
    number := got.or s.number, user := none, line := none
    failed := s.failed || got.isNone, fault := none }

def gotReply (req : Request) (ans : Except CallFault req.Expected) : ClientState :=
  { s with
    token := tokenAfter s.token req ans, channel := channelAfter s.channel req ans
    user := userAfter req ans, line := none, fault := faultOf ans }

/-- The requests that a client may send. -/
inductive Permitted : Request → Prop
  | login {r : LoginRequest} (hout : s.token = none)
      (htyped : s.failed = true ∨ s.words.take 2 = [r.pass, r.user]) : Permitted (.login r)
  | newUser {r : NewUserRequest} (hout : s.token = none)
      (htyped : s.failed = true ∨ s.words.take 2 = [r.pass, r.pass] ∧ r.name ∈ s.words) :
      Permitted (.newUser r)
  | logout {r : LogoutRequest} (hin : s.token = some r.token) : Permitted (.logout r)
  | channelList {r : ChannelListRequest} (hin : s.token = some r.token) :
      Permitted (.channelList r)
  | newChannel {r : NewChannelRequest} (hin : s.token = some r.token) {name desc : Bytes}
      (hname : r.name = Cli.hashed name) (hdesc : r.desc = descOf desc)
      (htyped : s.failed = true ∨ s.words.head? = some name ∧ s.line = some desc) :
      Permitted (.newChannel r)
  | changePass {r : ChangePassRequest} (hin : s.token = some r.token)
      (htyped : s.failed = true ∨ s.words.take 2 = [r.newPass, r.newPass]) :
      Permitted (.changePass r)
  | channelDetails {r : ChannelDetailsRequest} (hin : s.token = some r.token)
      (htyped : s.failed = true ∨ s.number = some r.chanId) : Permitted (.channelDetails r)
  | channelMsg {r : ChannelMsgRequest} (hin : s.token = some r.token) {members : List Int32}
      (hopen : s.channel = some (r.chanId, members)) : Permitted (.channelMsg r)
  | sendMsg {r : MessageSendRequest} (hin : s.token = some r.token) {members : List Int32}
      (hopen : s.channel = some (r.chanId, members))
      (htyped : s.failed = true ∨ s.line = some r.msgCnt) : Permitted (.sendMsg r)
  | userDetails {r : UserDetailsRequest} (hin : s.token = some r.token) {chanId : Int32}
      {members : List Int32} (hopen : s.channel = some (chanId, members))
      (hmeant : r.uid ∈ members ∨ s.failed = true ∨ s.number = some r.uid) :
      Permitted (.userDetails r)
  | inviteUser {r : InviteUserRequest} (hin : s.token = some r.token) {members : List Int32}
      (hopen : s.channel = some (r.chanId, members)) (huser : s.user = some r.uid)
      (hyes : s.line = some (ascii "y")) : Permitted (.inviteUser r)

variable {s} in
theorem Permitted.token {req : Request} (h : s.Permitted req) : req.token = s.token := by
  cases h with
  | login hout _ | newUser hout _ => exact hout.symm
  | logout hin | channelList hin | newChannel hin _ _ _ | changePass hin _
  | channelDetails hin _ | channelMsg hin _ | sendMsg hin _ _ | userDetails hin _ _
  | inviteUser hin _ _ _ => exact hin.symm

theorem tokenAfter_error (token : Option Int32) (req : Request) (e : CallFault) :
    tokenAfter token req (.error e) = token := by
  cases req <;> rfl

def Allowed : ClientCall → Prop
  | .send req => s.Permitted req
  | .getline | .readWord | .readInt => True

/-- Readings do not throw, and store nothing once one has stored nothing. -/
def Possible : Event ClientCall ClientCall.Answer CallFault → Prop
  | ⟨.getline, ans⟩ | ⟨.readWord, ans⟩ | ⟨.readInt, ans⟩ =>
      ∃ got, ans = .ok got ∧ (s.failed = true → got = none)
  | ⟨.send _, _⟩ => True

def next : Event ClientCall ClientCall.Answer CallFault → ClientState
  | ⟨.getline, .ok got⟩ => s.gotLine got
  | ⟨.readWord, .ok got⟩ => s.gotWord got
  | ⟨.readInt, .ok got⟩ => s.gotNumber got
  | ⟨.send req, ans⟩ => s.gotReply req ans
  | ⟨.getline, .error _⟩ | ⟨.readWord, .error _⟩ | ⟨.readInt, .error _⟩ =>
      { s with line := none, fault := none }

end ClientState

def clientProtocol : Protocol ClientCall ClientCall.Answer CallFault ClientState where
  Allowed := ClientState.Allowed
  Possible := ClientState.Possible
  next := ClientState.next

/-- The client keeps to what it may ask for from here on, and ends with `A` or `B`. -/
abbrev Cli.Keeps {α : Type} (A : α → ClientState → Prop) (B : CallFault → ClientState → Prop)
    (p : Cli α) (s : ClientState) : Prop :=
  clientProtocol.Adheres A B p s

namespace Cli

open Protocol

variable {α : Type} {s : ClientState} {B : CallFault → ClientState → Prop}

section Calls

theorem keeps_getline {line : Bytes} :
    Keeps (fun line' s' => ∃ got, (s.failed = true → got = none) ∧ line' = got.getD line ∧
      s' = s.gotLine got) B (getline line) s :=
  Adheres.bind (Adheres.invoke_ok trivial fun _ ⟨got, hr, hgot⟩ =>
    ⟨got, hr, hgot, rfl, rfl⟩) fun _ _ h => ⟨_, h⟩

theorem keeps_readWord {word : Bytes} :
    Keeps (fun word' s' => ∃ got, word' = got.getD word ∧ s' = s.gotWord got) B
      (readWord word) s :=
  Adheres.bind (Adheres.invoke_ok trivial fun _ ⟨got, hr, _⟩ => ⟨got, hr, rfl, rfl⟩)
    fun _ _ h => ⟨_, h⟩

theorem keeps_readInt {n : Int32} :
    Keeps (fun n' s' => ∃ got, n' = got.getD n ∧ s' = s.gotNumber got) B (readInt n) s :=
  Adheres.bind (Adheres.invoke_ok trivial fun _ ⟨got, hr, _⟩ => ⟨got, hr, rfl, rfl⟩)
    fun _ _ h => ⟨_, h⟩

theorem keeps_flush : Keeps (fun _ s' => ∃ got, s' = s.gotLine got) B flush s :=
  Adheres.bind keeps_getline fun _ _ ⟨got, _, _, hs'⟩ => ⟨got, hs'⟩

theorem keeps_send {req : Request} {A : req.Expected → ClientState → Prop}
    (hperm : s.Permitted req) (hok : ∀ res, A res (s.gotReply req (.ok res)))
    (herror : ∀ e, B e (s.gotReply req (.error e))) : Keeps A B (send req) s :=
  Adheres.invoke hperm (fun res _ => hok res) fun e _ => herror e

theorem keeps_catchCliError {p handler : Cli α} {A : α → ClientState → Prop}
    {F : CallFault → ClientState → Prop} (hp : Keeps A F p s)
    (hhandler : ∀ e s', F e s' → e.IsCliError → Keeps A B handler s')
    (hother : ∀ e s', F e s' → ¬ e.IsCliError → B e s') :
    Keeps A B (catchCliError p handler) s := by
  apply hp.tryCatch
  intro e s' he
  split
  · rename_i hcli
    exact hhandler e s' he hcli
  · rename_i hcli
    exact hother e s' he hcli

theorem keeps_catchException {p handler : Cli α} {A : α → ClientState → Prop}
    {F : CallFault → ClientState → Prop} (hp : Keeps A F p s)
    (hhandler : ∀ e s', F e s' → e.IsException → Keeps A B handler s')
    (hother : ∀ e s', F e s' → ¬ e.IsException → B e s') :
    Keeps A B (catchException p handler) s := by
  apply hp.tryCatch
  intro e s' he
  split
  · rename_i hexc
    exact hhandler e s' he hexc
  · rename_i hexc
    exact hother e s' he hexc

end Calls

section Questions

variable {A : Type} {options : List (String × A)}

/-- An answer is a line, and was read before any reading has failed. -/
theorem keeps_requestOption (hempty : optionOf options [] = none) (n : ℕ) :
    Keeps (fun a s' => s.failed = false ∧ ∃ resp, optionOf options resp = some a ∧
      s' = s.gotLine (some resp)) B (requestOption options n) s := by
  induction n generalizing s with
  | zero => exact Adheres.running
  | succ n ih =>
    refine Adheres.bind keeps_getline ?_
    rintro _ _ ⟨got, hgot, rfl, rfl⟩
    cases got with
    | none =>
      simp only [Option.getD_none, hempty]
      refine Adheres.weaken ih ?_ fun e s' he => he
      rintro a s' ⟨hfailed, -⟩
      simp [ClientState.gotLine] at hfailed
    | some resp =>
      have hfailed : s.failed = false := by
        cases hs : s.failed with
        | false => rfl
        | true => cases hgot hs
      simp only [Option.getD_some]
      cases hoption : optionOf options resp with
      | some a => exact Adheres.pure ⟨hfailed, resp, hoption, rfl⟩
      | none =>
        refine Adheres.weaken ih ?_ fun e s' he => he
        rintro a s' ⟨-, resp', ha, rfl⟩
        exact ⟨hfailed, resp', ha, by simp [ClientState.gotLine]⟩

/-- That the variable outlives the turns makes no difference. -/
theorem requestLogin_eq {resp : Bytes} (h : optionOf loginOptions resp = none) (n : ℕ) :
    requestLogin resp n = requestOption loginOptions n := by
  induction n generalizing resp with
  | zero => rfl
  | succ n ih =>
    have hempty : optionOf loginOptions [] = none := by decide
    show Program.call ClientCall.getline _ = Program.call ClientCall.getline _
    congr 1
    funext ans
    cases ans with
    | error e => rfl
    | ok got =>
      cases got with
      | none => simpa [Program.bind, Program.pure_bind, h, hempty] using ih h
      | some line =>
        cases hline : optionOf loginOptions line with
        | some act => simp [Program.bind, Program.pure_bind, hline]
        | none => simpa [Program.bind, Program.pure_bind, hline] using ih hline

theorem keeps_requestLogin (n : ℕ) :
    Keeps (fun act s' => ∃ resp, optionOf loginOptions resp = some act ∧
      s' = s.gotLine (some resp)) B (requestLogin [] n) s := by
  rw [requestLogin_eq (by decide)]
  exact (keeps_requestOption (by decide) n).weaken (fun _ _ h => h.2) fun _ _ h => h

theorem eq_of_optionOf {resp : Bytes} {a : A} (h : optionOf options resp = some a) :
    ∃ o ∈ options, resp = ascii o.1 ∧ a = o.2 := by
  obtain ⟨o, ho, rfl⟩ := Option.map_eq_some_iff.mp h
  have hresp : ascii o.1 = resp := by simpa using List.find?_some ho
  exact ⟨o, List.mem_of_find?_eq_some ho, hresp.symm, rfl⟩

/-- What was typed, if the meaning has one spelling. -/
theorem typed_of_optionOf {resp : Bytes} {a : A} {text : String}
    (h : optionOf options resp = some a) (hone : ∀ o ∈ options, o.2 = a → o.1 = text) :
    resp = ascii text := by
  obtain ⟨o, ho, rfl, rfl⟩ := eq_of_optionOf h
  rw [hone o ho rfl]

/-- The answer `y` is the one that confirms. -/
theorem keeps_yesNo (n : ℕ) :
    Keeps (fun yes s' => ∃ resp, s' = s.gotLine (some resp) ∧ (yes = true → resp = ascii "y")) B
      (yesNo n) s := by
  refine (keeps_requestOption (by decide) n).weaken ?_ fun _ _ h => h
  rintro yes s' ⟨-, resp, hyes, rfl⟩
  refine ⟨resp, rfl, ?_⟩
  rintro rfl
  exact typed_of_optionOf hyes (by decide)

end Questions

section Typed

/-- Two words that were read, each with the rest of its line. -/
theorem words_of_two (s : ClientState) (got1 line1 got2 line2 : Option Bytes) :
    (((((s.gotWord got1).gotLine line1).gotWord got2).gotLine line2).failed = true) ∨
      s.failed = false ∧ ∃ w1 w2, got1 = some w1 ∧ got2 = some w2 ∧
        ((((s.gotWord got1).gotLine line1).gotWord got2).gotLine line2).words =
          w2 :: w1 :: s.words := by
  cases got1 with
  | none => exact .inl (by simp [ClientState.gotWord, ClientState.gotLine])
  | some w1 =>
    cases got2 with
    | none => exact .inl (by simp [ClientState.gotWord, ClientState.gotLine])
    | some w2 =>
      cases hfailed : s.failed with
      | true => exact .inl (by simp [ClientState.gotWord, ClientState.gotLine, hfailed])
      | false => exact .inr ⟨rfl, w1, w2, rfl, rfl, rfl⟩

/-- The password is the last two words, unless the input has failed. -/
structure Repeated (s : ClientState) (pass : Bytes) (s' : ClientState) : Prop where
  token : s'.token = s.token
  failed : s.failed = true → s'.failed = true
  words : s.words ⊆ s'.words
  twice : s'.failed = true ∨ s'.words.take 2 = [pass, pass]

theorem keeps_repeatPassword {pass1 pass2 : Bytes} {n : ℕ} :
    Keeps (Repeated s) B (repeatPassword pass1 pass2 n) s := by
  induction n generalizing s pass1 pass2 with
  | zero => exact Adheres.running
  | succ n ih =>
    refine Adheres.bind keeps_readWord ?_
    rintro _ _ ⟨got1, rfl, rfl⟩
    refine Adheres.bind keeps_flush ?_
    rintro _ _ ⟨line1, rfl⟩
    refine Adheres.bind keeps_readWord ?_
    rintro _ _ ⟨got2, rfl, rfl⟩
    refine Adheres.bind keeps_flush ?_
    rintro _ _ ⟨line2, rfl⟩
    have htwo := words_of_two s got1 line1 got2 line2
    have hfailed : s.failed = true →
        ((((s.gotWord got1).gotLine line1).gotWord got2).gotLine line2).failed = true := by
      intro hs
      simp [ClientState.gotWord, ClientState.gotLine, hs]
    have hwords : s.words ⊆
        ((((s.gotWord got1).gotLine line1).gotWord got2).gotLine line2).words := by
      intro w hw
      simp [ClientState.gotWord, ClientState.gotLine, hw]
    split
    · rename_i heq
      refine Adheres.pure ⟨rfl, hfailed, hwords, htwo.imp_right ?_⟩
      rintro ⟨-, w1, w2, rfl, rfl, hcons⟩
      have heq' : w1 = w2 := heq
      rw [hcons]
      show [w2, w1] = [w1, w1]
      rw [heq']
    · refine ih.weaken ?_ fun _ _ h => h
      rintro pass s' ⟨htoken, hfailed', hwords', htwice⟩
      exact ⟨htoken, fun hs => hfailed' (hfailed hs),
        List.Subset.trans hwords hwords', htwice⟩

end Typed

section Sends

/-- The call has failed with this, in or out of a session. -/
def Threw (token : Option Int32) (e : CallFault) (s : ClientState) : Prop :=
  s.token = token ∧ s.fault = some e

theorem keeps_sendLogin (h : s.token = none) :
    Keeps (fun token s' => s'.token = some token) (Threw none) sendLogin s := by
  refine Adheres.bind keeps_readWord ?_
  rintro _ _ ⟨got1, rfl, rfl⟩
  refine Adheres.bind keeps_flush ?_
  rintro _ _ ⟨line1, rfl⟩
  refine Adheres.bind keeps_readWord ?_
  rintro _ _ ⟨got2, rfl, rfl⟩
  refine Adheres.bind keeps_flush ?_
  rintro _ _ ⟨line2, rfl⟩
  refine Adheres.bind (keeps_send (.login h ?_) (fun res => ?_) fun e => ⟨h, rfl⟩)
    fun res s' hs' => Adheres.pure hs'
  · refine (words_of_two s got1 line1 got2 line2).imp_right ?_
    rintro ⟨-, w1, w2, rfl, rfl, hcons⟩
    rw [hcons]
    rfl
  · rfl

theorem keeps_sendNewUser {turns : ℕ} (h : s.token = none) :
    Keeps (fun _ s' => s'.token = none) (Threw none) (sendNewUser turns) s := by
  refine Adheres.bind keeps_readWord ?_
  rintro _ _ ⟨got, rfl, rfl⟩
  refine Adheres.bind keeps_flush ?_
  rintro _ _ ⟨line, rfl⟩
  refine Adheres.bind keeps_repeatPassword ?_
  rintro pass s' ⟨htoken, hfailed, hwords, htwice⟩
  have hout : s'.token = none := htoken.trans h
  have htyped : s'.failed = true ∨ s'.words.take 2 = [pass, pass] ∧ got.getD [] ∈ s'.words := by
    cases got with
    | none => exact .inl (hfailed (by simp [ClientState.gotWord, ClientState.gotLine]))
    | some name => exact htwice.imp_right fun h2 => ⟨h2, hwords List.mem_cons_self⟩
  exact keeps_send (.newUser hout htyped) (fun _ => hout) fun _ => ⟨hout, rfl⟩

variable {token : Int32}

theorem keeps_sendLogout (h : s.token = some token) :
    Keeps (fun _ s' => s'.token = none) (Threw (some token)) (sendLogout token) s :=
  keeps_send (.logout h) (fun _ => rfl) fun _ => ⟨h, rfl⟩

theorem keeps_sendChangePass {turns : ℕ} (h : s.token = some token) :
    Keeps (fun _ s' => s'.token = some token) (Threw (some token))
      (sendChangePass turns token) s := by
  refine Adheres.bind keeps_repeatPassword ?_
  rintro pass s' ⟨htoken, -, -, htwice⟩
  have hin : s'.token = some token := htoken.trans h
  exact keeps_send (.changePass hin htwice) (fun _ => hin) fun _ => ⟨hin, rfl⟩

theorem keeps_sendCreateChannel (h : s.token = some token) :
    Keeps (fun _ s' => s'.token = some token) (Threw (some token))
      (sendCreateChannel token) s := by
  refine Adheres.bind keeps_readWord ?_
  rintro _ _ ⟨got, rfl, rfl⟩
  refine Adheres.bind keeps_flush ?_
  rintro _ _ ⟨line, rfl⟩
  refine Adheres.bind keeps_getline ?_
  rintro _ _ ⟨desc, -, rfl, rfl⟩
  refine keeps_send (.newChannel h rfl rfl ?_) (fun _ => h) fun _ => ⟨h, rfl⟩
  cases got with
  | none => exact .inl (by simp [ClientState.gotWord, ClientState.gotLine])
  | some name =>
    cases desc with
    | none => exact .inl (by simp [ClientState.gotLine])
    | some desc => exact .inr ⟨rfl, rfl⟩

theorem keeps_sendChannelList (h : s.token = some token) :
    Keeps (fun _ s' => s'.token = some token) (Threw (some token)) (sendChannelList token) s :=
  keeps_send (.channelList h) (fun _ => h) fun _ => ⟨h, rfl⟩

/-- A session in which the channel is open. -/
structure InChannel (token chanId : Int32) (members : List Int32) (s : ClientState) : Prop where
  token : s.token = some token
  channel : s.channel = some (chanId, members)

variable {chanId uid : Int32} {members : List Int32}

theorem keeps_sendChannelDetails (h : s.token = some token)
    (htyped : s.failed = true ∨ s.number = some chanId) :
    Keeps (fun chan => InChannel token chanId chan.members) (Threw (some token))
      (sendChannelDetails token chanId) s :=
  keeps_send (.channelDetails h htyped) (fun _ => ⟨h, rfl⟩) fun _ => ⟨h, rfl⟩

theorem keeps_sendChannelMessageList (h : InChannel token chanId members s) :
    Keeps (fun _ => InChannel token chanId members) (Threw (some token))
      (sendChannelMessageList token chanId) s :=
  keeps_send (.channelMsg h.token h.channel) (fun _ => ⟨h.token, h.channel⟩)
    fun _ => ⟨h.token, rfl⟩

theorem keeps_sendSendMessage (h : InChannel token chanId members s) :
    Keeps (fun _ => InChannel token chanId members) (Threw (some token))
      (sendSendMessage token chanId) s := by
  refine Adheres.bind keeps_getline ?_
  rintro _ _ ⟨got, -, rfl, rfl⟩
  refine keeps_send (.sendMsg h.token h.channel ?_) (fun _ => ⟨h.token, h.channel⟩)
    fun _ => ⟨h.token, rfl⟩
  cases got with
  | none => exact .inl (by simp [ClientState.gotLine])
  | some msg => exact .inr rfl

/-- The channel stays open if the user is not found. -/
theorem keeps_sendUserDetails (h : InChannel token chanId members s)
    (hmeant : uid ∈ members ∨ s.failed = true ∨ s.number = some uid) :
    Keeps (fun _ s' => InChannel token chanId members s' ∧ s'.user = some uid)
      (fun e s' => InChannel token chanId members s' ∧ s'.fault = some e)
      (sendUserDetails token uid) s :=
  keeps_send (.userDetails h.token h.channel hmeant) (fun _ => ⟨⟨h.token, h.channel⟩, rfl⟩)
    fun _ => ⟨⟨h.token, h.channel⟩, rfl⟩

theorem keeps_sendUserInvite (h : InChannel token chanId members s) (huser : s.user = some uid)
    (hyes : s.line = some (ascii "y")) :
    Keeps (fun _ => InChannel token chanId members) (Threw (some token))
      (sendUserInvite token uid chanId) s :=
  keeps_send (.inviteUser h.token h.channel huser hyes) (fun _ => ⟨h.token, h.channel⟩)
    fun _ => ⟨h.token, rfl⟩

end Sends

section Menus

variable {turns : ℕ} {uninit token chanId : Int32} {members : List Int32}

/-- The user that is chosen was found, and confirmed with the last line. -/
theorem keeps_chooseUser {k n : ℕ} {uid : Int32} (h : InChannel token chanId members s) :
    Keeps (fun uid s' => InChannel token chanId members s' ∧ s'.user = some uid ∧
      s'.line = some (ascii "y")) (Threw (some token)) (chooseUser k token uid n) s := by
  induction n generalizing s uid with
  | zero => exact Adheres.running
  | succ n ih =>
    refine Adheres.bind keeps_readInt ?_
    rintro _ _ ⟨got, rfl, rfl⟩
    have hmeant : (s.gotNumber got).failed = true ∨
        (s.gotNumber got).number = some (got.getD uid) := by
      cases got with
      | none => exact .inl (by simp [ClientState.gotNumber])
      | some uid => exact .inr rfl
    refine Adheres.bind (I := fun invUser s' => InChannel token chanId members s' ∧
      (invUser = false → s'.user = some (got.getD uid) ∧ s'.line = some (ascii "y"))) ?_ ?_
    · refine keeps_catchException (Adheres.bind (keeps_sendUserDetails ⟨h.token, h.channel⟩
        (.inr hmeant)) ?_) (fun e s' he _ => Adheres.pure ⟨he.1, by simp⟩)
        fun e s' he _ => ⟨he.1.token, he.2⟩
      rintro _ s' ⟨h', huser⟩
      refine Adheres.bind (keeps_yesNo k) ?_
      rintro yes _ ⟨resp, rfl, hyes⟩
      refine Adheres.pure ⟨⟨h'.token, h'.channel⟩, ?_⟩
      intro hinv
      exact ⟨huser, congrArg some (hyes (by simpa using hinv))⟩
    · rintro invUser s' ⟨h', hchosen⟩
      cases invUser with
      | true => exact ih h'
      | false => exact Adheres.pure ⟨h', hchosen rfl⟩

theorem keeps_showMembers {rest : List Int32} (hrest : ∀ uid ∈ rest, uid ∈ members)
    (h : InChannel token chanId members s) :
    Keeps (fun _ => InChannel token chanId members) (Threw (some token))
      (showMembers token rest) s := by
  induction rest generalizing s with
  | nil => exact Adheres.pure h
  | cons uid rest ih =>
    obtain ⟨hhead, htail⟩ := List.forall_mem_cons.mp hrest
    refine Adheres.bind ((keeps_sendUserDetails h (.inl hhead)).weaken (fun _ _ h' => h'.1)
      fun _ _ h' => ⟨h'.1.token, h'.2⟩) fun _ s' h' => ih htail h'

/-- The menus are left for good only with `.q`. -/
def TypedQuit (s : ClientState) : Prop := s.line = some (ascii ".q")

def Quits (quit : Bool) (s : ClientState) : Prop := quit = true → TypedQuit s

theorem keeps_channelAction {act : ChanAction} (h : InChannel token chanId members s)
    (hact : act = .quit → TypedQuit s) :
    Keeps (fun left s' => InChannel token chanId members s' ∧ ∀ quit, left = some quit →
      Quits quit s') (Threw (some token)) (channelAction turns uninit token chanId members act)
      s := by
  cases act with
  | getMsgs =>
    exact Adheres.bind (keeps_sendChannelMessageList h) fun _ _ h' => Adheres.pure ⟨h', by simp⟩
  | sendMsg =>
    exact Adheres.bind (keeps_sendSendMessage h) fun _ _ h' => Adheres.pure ⟨h', by simp⟩
  | getUsrs =>
    exact Adheres.bind (keeps_showMembers (fun _ => id) h) fun _ _ h' =>
      Adheres.pure ⟨h', by simp⟩
  | inviteUsr =>
    refine Adheres.bind (keeps_chooseUser h) ?_
    rintro uid s' ⟨h', huser, hyes⟩
    exact Adheres.bind (keeps_sendUserInvite h' huser hyes) fun _ _ h'' =>
      Adheres.pure ⟨h'', by simp⟩
  | back => exact Adheres.pure ⟨h, by simp [Quits]⟩
  | quit => exact Adheres.pure ⟨h, fun _ _ _ => hact rfl⟩

theorem keeps_inChannelLoop {n : ℕ} (h : InChannel token chanId members s) :
    Keeps (fun quit s' => s'.token = some token ∧ Quits quit s') (Threw (some token))
      (inChannelLoop turns uninit token chanId members n) s := by
  induction n generalizing s with
  | zero => exact Adheres.running
  | succ n ih =>
    refine Adheres.bind (keeps_requestOption (by decide) turns) ?_
    rintro act _ ⟨-, resp, hact, rfl⟩
    refine Adheres.bind (keeps_channelAction ⟨h.token, h.channel⟩ ?_) ?_
    · rintro rfl
      exact congrArg some (typed_of_optionOf hact (by decide))
    · rintro left s' ⟨h', hleft⟩
      cases left with
      | none => exact ih h'
      | some quit => exact Adheres.pure ⟨h'.token, hleft quit rfl⟩

theorem keeps_runInChannelMenu (h : s.token = some token)
    (htyped : s.failed = true ∨ s.number = some chanId) :
    Keeps (fun quit s' => s'.token = some token ∧ Quits quit s') (Threw (some token))
      (runInChannelMenu turns uninit token chanId) s :=
  keeps_catchCliError
    (Adheres.bind (keeps_sendChannelDetails h htyped) fun _ _ h' => keeps_inChannelLoop h')
    (fun _ _ he _ => Adheres.pure ⟨he.1, by simp [Quits]⟩) fun _ _ he _ => he

theorem line_of_getD {got : Option Bytes} {line : Bytes} (h : got.getD [] = line)
    (hne : line ≠ []) : got = some line := by
  cases got with
  | none => exact absurd h.symm hne
  | some line' => exact congrArg some h

theorem keeps_listChoice {n : ℕ} (h : s.token = some token) :
    Keeps (fun left s' => s'.token = some token ∧ ∀ quit, left = some quit → Quits quit s')
      (Threw (some token)) (listChoice turns uninit token n) s := by
  induction n generalizing s with
  | zero => exact Adheres.running
  | succ n ih =>
    refine Adheres.bind keeps_getline ?_
    rintro _ _ ⟨got, -, rfl, rfl⟩
    split
    · refine Adheres.bind keeps_readInt ?_
      rintro _ _ ⟨number, rfl, rfl⟩
      refine Adheres.bind keeps_flush ?_
      rintro _ _ ⟨line, rfl⟩
      refine Adheres.bind (keeps_runInChannelMenu h ?_) ?_
      · cases number with
        | none => exact .inl (by simp [ClientState.gotNumber, ClientState.gotLine])
        | some id => exact .inr rfl
      · rintro quit s' ⟨h', hquit⟩
        cases quit with
        | true => exact Adheres.pure ⟨h', fun _ _ _ => hquit rfl⟩
        | false => exact Adheres.pure ⟨h', by simp⟩
    · split
      · exact Adheres.pure ⟨h, by simp [Quits]⟩
      · split
        · exact Adheres.pure ⟨h, by simp⟩
        · split
          · rename_i hq
            exact Adheres.pure ⟨h, fun _ _ _ => line_of_getD hq (by decide)⟩
          · exact ih h

theorem keeps_channelMenuLoop {n : ℕ} (h : s.token = some token) :
    Keeps (fun quit s' => s'.token = some token ∧ Quits quit s') (Threw (some token))
      (channelMenuLoop turns uninit token n) s := by
  induction n generalizing s with
  | zero => exact Adheres.running
  | succ n ih =>
    refine Adheres.bind (keeps_sendChannelList h) fun _ s' h' => ?_
    refine Adheres.bind (keeps_listChoice h') ?_
    rintro left s'' ⟨h'', hleft⟩
    cases left with
    | none => exact ih h''
    | some quit => exact Adheres.pure ⟨h'', hleft quit rfl⟩

theorem keeps_runChannelMenu (h : s.token = some token) :
    Keeps (fun quit s' => s'.token = some token ∧ Quits quit s') (Threw (some token))
      (runChannelMenu turns uninit token) s :=
  keeps_catchCliError (keeps_channelMenuLoop h)
    (fun _ _ he _ => Adheres.pure ⟨he.1, by simp [Quits]⟩) fun _ _ he _ => he

/-- How a choice in the main menu leaves the session: open, or left for good, or
closed. -/
def Leaves (token : Int32) : Option Bool → ClientState → Prop
  | none, s => s.token = some token
  | some true, s => TypedQuit s
  | some false, s => s.token = none

theorem keeps_mainAction {act : MainAction} (h : s.token = some token)
    (hact : act = .quit → TypedQuit s) :
    Keeps (Leaves token) (Threw (some token)) (mainAction turns uninit token act) s := by
  cases act with
  | logout => exact Adheres.bind (keeps_sendLogout h) fun _ _ h' => Adheres.pure h'
  | chanList =>
    refine Adheres.bind (keeps_runChannelMenu h) ?_
    rintro quit s' ⟨h', hquit⟩
    cases quit with
    | true => exact Adheres.pure (hquit rfl)
    | false => exact Adheres.pure h'
  | newChan => exact Adheres.bind (keeps_sendCreateChannel h) fun _ _ h' => Adheres.pure h'
  | chPass => exact Adheres.bind (keeps_sendChangePass h) fun _ _ h' => Adheres.pure h'
  | quit => exact Adheres.pure (hact rfl)

/-- An exception other than `cli_error`, of the call that was made last. -/
def Escapes (e : CallFault) (s : ClientState) : Prop := s.fault = some e ∧ ¬ e.IsCliError

theorem keeps_mainLoop {n : ℕ} (h : s.token = some token) :
    Keeps (fun quit => Leaves token (some quit)) Escapes (mainLoop turns uninit token n) s := by
  induction n generalizing s with
  | zero => exact Adheres.running
  | succ n ih =>
    refine Adheres.bind (keeps_catchCliError (F := Threw (some token)) (A := Leaves token)
      (Adheres.bind (keeps_requestOption (by decide) turns) ?_)
      (fun _ _ he _ => Adheres.pure he.1) fun _ _ he hcli => ⟨he.2, hcli⟩) ?_
    · rintro act _ ⟨-, resp, hact, rfl⟩
      refine keeps_mainAction h ?_
      rintro rfl
      exact congrArg some (typed_of_optionOf hact (by decide))
    · intro left s' hleft
      cases left with
      | none => exact ih hleft
      | some quit => exact Adheres.pure hleft

/-- The client is left with `.q`, or outside a session after a `cli_error`. -/
def Ended (s : ClientState) : Prop :=
  TypedQuit s ∨ s.token = none ∧ ∃ e, s.fault = some e ∧ e.IsCliError

def StepEnds : LoginStep → ClientState → Prop
  | .leave, s => Ended s
  | .again, s => s.token = none
  | .loggedIn token, s => s.token = some token

theorem keeps_loginStep (h : s.token = none) :
    Keeps StepEnds Escapes (loginStep turns) s := by
  refine keeps_catchCliError (F := Threw none) (Adheres.bind (keeps_requestLogin turns) ?_)
    (fun e _ he hcli => Adheres.pure (.inr ⟨he.1, e, he.2, hcli⟩)) fun _ _ he hcli => ⟨he.2, hcli⟩
  rintro act _ ⟨resp, hact, rfl⟩
  cases act with
  | quit => exact Adheres.pure (.inl (congrArg some (typed_of_optionOf hact (by decide))))
  | login => exact Adheres.bind (keeps_sendLogin h) fun _ _ h' => Adheres.pure h'
  | signup =>
    refine Adheres.bind (keeps_sendNewUser h) fun _ s' h' => ?_
    refine Adheres.bind (keeps_yesNo turns) ?_
    rintro yes _ ⟨resp', rfl, -⟩
    cases yes with
    | true => exact Adheres.bind (keeps_sendLogin h') fun _ _ h'' => Adheres.pure h''
    | false => exact Adheres.pure h'

/-- The client keeps to what it may ask for. -/
theorem keeps_runWaitLoop {n : ℕ} (h : s.token = none) :
    Keeps (fun _ => Ended) Escapes (runWaitLoop turns uninit n) s := by
  induction n generalizing s with
  | zero => exact Adheres.running
  | succ n ih =>
    refine Adheres.bind (keeps_loginStep h) fun step s' hstep => ?_
    cases step with
    | leave => exact Adheres.pure hstep
    | again => exact ih hstep
    | loggedIn token =>
      refine Adheres.bind (keeps_mainLoop hstep) fun quit s'' hquit => ?_
      cases quit with
      | true => exact Adheres.pure (.inl hquit)
      | false => exact ih hquit

end Menus
end Cli
end Dotchat
