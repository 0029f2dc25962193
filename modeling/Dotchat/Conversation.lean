import Dotchat.Conformance
import Dotchat.Connection
import Dotchat.LoginKeys

/-!
One connection while it stays open. The client calls `send` with one or several
whole requests; the loop of `callback` reads such a sending in one turn, hands it
to `handle` and sends the reply, if there is one: a login that draws a live key is
never answered, and the loop never reads again. Only the first request of a
sending is handled. Other connections may change the world between two turns.
-/
namespace Dotchat

open Bytestream

/-- `handle`: the reply to the first message of a stream. -/
def handle (env : Env) (turns : ℕ) (stream : Bytestream) (w : World) : Option Message × World :=
  match Message.ofStream stream with
  | .error _ _ => (none, w)
  | .ok got _ =>
      match serve env turns got w with
      | (.returned res, w') => (some res, w')
      | (_, w') => (none, w')

/-- A turn that keeps the connection open is a read, a reply and a write. -/
theorem callbackTurn_eq_some {tls : Tls} {env : Env} {turns : ℕ} {link link' : Link}
    {w w' : World} :
    callbackTurn tls env turns link w = (some link', w') ↔
      ∃ stream res, connRead link.toServer = some (stream, link'.toServer) ∧ stream.size ≠ 0 ∧
        handle env turns stream w = (some res, w') ∧
        connSend tls res link.toClient = .ok link'.toClient := by
  constructor
  · intro h
    unfold callbackTurn at h
    split at h
    · cases h
    rename_i stream toServer hread
    split at h
    · cases h
    rename_i hsize
    split at h
    · cases h
    rename_i got s hgot
    split at h
    · rename_i res v hserve
      split at h
      · rename_i toClient hsend
        cases h
        exact ⟨stream, res, hread, hsize, by simp only [handle, hgot, hserve], hsend⟩
      · cases h
    · cases h
  · rintro ⟨stream, res, hread, hsize, hhandle, hsend⟩
    unfold handle at hhandle
    split at hhandle
    · cases hhandle
    rename_i got s hgot
    split at hhandle
    · rename_i res' v hserve
      cases hhandle
      simp only [callbackTurn, hread, hsize, if_false, hgot, hserve, hsend]
    · cases hhandle

/-- A request as the client writes it: a sentence of the format. -/
structure Sentence where
  bytes : Bytes
  isSentence : IsSentence bytes

/-- A call of `send`: one or several whole requests, at most 1023 bytes. -/
structure Sending where
  requests : List Sentence
  nonempty : requests ≠ []
  fits : (requests.map (·.bytes)).flatten.length ≤ 1023

def Sending.bytes (g : Sending) : Bytes := (g.requests.map (·.bytes)).flatten

/-- A turn of the loop: the worlds before and after it, the bound for the loop
of `login` in it, and the reply that it sends. -/
structure Turn where
  before : World
  turns : ℕ
  reply : Message
  after : World

/-- Where the loop of `callback` is: in `read`, or in `handle` with what it has read, in
the world in which it has read it. -/
inductive Loop
  | reading
  | handling (stream : Bytestream) (w : World)

/-- The sendings of the client, the turns of the loop that have ended, where the loop is
and the link, in any order, as long as the connection stays open. -/
inductive Conversation (tls : Tls) (env : Env) : List Sending → List Turn → Loop → Link → Prop
  | opened : Conversation tls env [] [] .reading {}
  | sent {sends : List Sending} {log : List Turn} {loop : Loop} {link : Link}
      (h : Conversation tls env sends log loop link) (g : Sending) :
      Conversation tls env (sends ++ [g]) log loop
        { link with toServer := link.toServer ++ tls.records g.bytes }
  | read {sends : List Sending} {log : List Turn} {link : Link}
      (h : Conversation tls env sends log .reading link) {stream : Bytestream}
      {toServer : List Bytes} (hread : connRead link.toServer = some (stream, toServer))
      (hsize : stream.size ≠ 0) (w : World) :
      Conversation tls env sends log (.handling stream w) { link with toServer }
  | replied {sends : List Sending} {log : List Turn} {stream : Bytestream} {w w' : World}
      {link : Link} (h : Conversation tls env sends log (.handling stream w) link) {turns : ℕ}
      {reply : Message} {toClient : List Bytes}
      (hreply : handle env turns stream w = (some reply, w'))
      (hsend : connSend tls reply link.toClient = .ok toClient) :
      Conversation tls env sends (log ++ [⟨w, turns, reply, w'⟩]) .reading { link with toClient }
  | received {sends : List Sending} {log : List Turn} {loop : Loop} {link : Link}
      (h : Conversation tls env sends log loop link) {stream : Bytestream} {toClient : List Bytes}
      (hread : connRead link.toClient = some (stream, toClient)) :
      Conversation tls env sends log loop { link with toClient }

/-- The turns of a conversation are those of the loop. -/
theorem Conversation.turn_of_callbackTurn {tls : Tls} {env : Env} {sends : List Sending}
    {log : List Turn} {link link' : Link} {turns : ℕ} {w w' : World}
    (h : Conversation tls env sends log .reading link)
    (hturn : callbackTurn tls env turns link w = (some link', w')) :
    ∃ res, Conversation tls env sends (log ++ [⟨w, turns, res, w'⟩]) .reading link' := by
  obtain ⟨stream, res, hread, hsize, hreply, hsend⟩ := callbackTurn_eq_some.mp hturn
  exact ⟨res, (h.read hread hsize w).replied hreply hsend⟩

section Turns

variable {tls : Tls} {env : Env}

theorem Sending.bytes_ne_nil (g : Sending) : g.bytes ≠ [] := by
  obtain ⟨requests, hne, hfits⟩ := g
  cases requests with
  | nil => exact absurd rfl hne
  | cons r rest =>
    obtain ⟨bytes, cmd, vs, h⟩ := r
    cases h
    simp [Sending.bytes]

theorem Sending.records (g : Sending) : tls.records g.bytes = [g.bytes] := by
  have hfits : g.bytes.length ≤ 1023 := g.fits
  exact tls.records_of_le _ g.bytes_ne_nil (by omega)

/-- The turn is that of the sending. -/
def Replied (env : Env) (g : Sending) (t : Turn) : Prop :=
  handle env t.turns (fresh g.bytes) t.before = (some t.reply, t.after)

/-- The loop has taken up these sendings: the last one is at work, or none is. -/
def Loop.HasRead (env : Env) (sends : List Sending) (log : List Turn) : Loop → Prop
  | reading => List.Forall₂ (Replied env) sends log
  | handling stream _ => ∃ front g, sends = front ++ [g] ∧ stream = fresh g.bytes ∧
      List.Forall₂ (Replied env) front log

/-- The loop has read the first sendings, one a turn, and the others are on
their way. -/
theorem Conversation.split {sends : List Sending} {log : List Turn} {loop : Loop} {link : Link}
    (h : Conversation tls env sends log loop link) :
    ∃ done pending, sends = done ++ pending ∧ link.toServer = pending.map Sending.bytes ∧
      loop.HasRead env done log := by
  induction h with
  | opened => exact ⟨[], [], rfl, rfl, .nil⟩
  | sent _ g ih =>
    obtain ⟨done, pending, rfl, hlink, hdone⟩ := ih
    refine ⟨done, pending ++ [g], List.append_assoc _ _ _, ?_, hdone⟩
    rw [hlink, g.records, List.map_append, List.map_singleton]
  | read _ hread _ w ih =>
    obtain ⟨done, pending, rfl, hlink, hdone⟩ := ih
    cases pending with
    | nil =>
      rw [hlink] at hread
      cases hread
    | cons g pending =>
      have hfits : g.bytes.length ≤ 1023 := g.fits
      have hstream : connRead (g.bytes :: pending.map Sending.bytes) =
          some (fresh g.bytes, pending.map Sending.bytes) := by
        rw [connRead, sslRead, List.take_of_length_le hfits, if_pos hfits]
        rfl
      rw [hlink, List.map_cons, hstream] at hread
      cases hread
      exact ⟨done ++ [g], pending, by simp, rfl, done, g, rfl, rfl, hdone⟩
  | replied _ hreply _ ih =>
    obtain ⟨done, pending, rfl, hlink, front, g, rfl, rfl, hdone⟩ := ih
    exact ⟨front ++ [g], pending, rfl, hlink, List.rel_append hdone (.cons hreply .nil)⟩
  | received _ _ ih => exact ih

end Turns

section Counting

end Counting

theorem masterLogin_canonical : masterLogin.Canonical := by
  have hordered : OrderedMap.Ordered masterLogin.args :=
    ArgObj.ordered_setAll OrderedMap.ordered_nil
  refine ⟨by decide, ?_⟩
  show Arg.Canonical (.subObject
    [(ascii "pass", .string (ascii "pass")), (ascii "user", .string (ascii "master"))])
  refine .subObject ⟨hordered, by decide⟩ (by decide) (List.forall_mem_cons.mpr ⟨?_, ?_⟩)
  · exact .string (by decide)
  · exact List.forall_mem_singleton.mpr (.string (by decide))

def loginRequest : Sentence where
  bytes := masterLogin.wire
  isSentence := ⟨_, _, isMessage_wire (by decide) masterLogin_canonical.2.documented⟩

end Dotchat
