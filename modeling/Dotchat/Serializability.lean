import Dotchat.TwoWrites

/-!
The server has no transactions, and still the operations of two requests may
alternate as they like: the replies and the database are those of one of the two
orders, unless the two clash. The first write decides. Where it is the last
operation of its request, that request has overtaken the other one; where it is
the insertion of a channel, the membership of the owner follows, and the other
request goes before both, behind both, or clashes with it.
-/
namespace Dotchat

open Db Handlers Program Threads

/-- Only new_channel inserts a channel, for the user of its token. -/
theorem Written.of_newChannel {env : Env} {w : World} {req : Request} {o : Outcome Exc Response}
    {db : Database} {c : Channel} (h : Written env w req o db)
    (hdb : db.channels = w.db.channels ++ [c]) :
    ∃ q s, req = .newChannel q ∧ w.db.getSessionKey q.token = some s ∧ s.user = c.ownerId ∧
      w.db.HasUser c.ownerId ∧ o = .returned (.id { id := c.id }) := by
  cases h with
  | @channel q u hu hfree =>
    have hc := List.append_cancel_left hdb
    cases hc
    obtain ⟨s, hs, -, huser⟩ := hu
    obtain ⟨hmem, hid⟩ := Table.mem_of_lookup huser
    exact ⟨q, s, rfl, hs, hid.symm, ⟨u, hmem, rfl⟩, rfl⟩
  | _ =>
    have hlength := congrArg List.length hdb
    simp [Database.replaceSessionKey, Database.removeSessionKeysOf, Database.insertMessage,
      Database.replaceChannelMember] at hlength

section Split

variable {db db₁ db' : Database} {rA rB : Readings} {turnsA turnsB : ℕ} {a b : Request}
  {oA oB : Outcome Exc Response} {name : Bytes} {ownerId id : Int32} {desc : Option Bytes}
  {next : Except Exc Unit → Handler Response}

/-- A new channel takes nothing from what a request relies on. -/
theorem carries_insertChannel (hdb : Relational db) (hrel : Relational db₁) (hgrows : db.Grows db₁)
    (hins : db.insertChannel name ownerId desc = .ok (id, db₁)) :
    Carries operate (fun _ => False) db db₁ (answer rB (respond turnsB b)) := by
  obtain ⟨-, -, rfl⟩ := Database.insertChannel_eq_ok hins
  apply carries_unrelated hrel hgrows rfl
  · exact fun _ _ others h => ⟨others, h⟩
  · exact fun _ _ => ⟨rfl, fun _ => rfl⟩
  · exact hdb

/-- A request that looks for the members of the new channel before there are any
goes before or behind new_channel. -/
theorem someOrder_of_looksInto {row : ChannelMember} {c : Channel} {p : Handler Response}
    {o₁ : Outcome Exc Response} (hdb : Relational db)
    (hdb₁ : db₁ = { db with channels := db.channels ++ [c] })
    (hnew : ¬ db.HasChannel c.id) (hrow : row.channel = c.id)
    (hrel : Relational (db₁.replaceChannelMember row))
    (hgrows : db₁.Grows (db₁.replaceChannelMember row))
    (hp : p.run operate db = (oA, db₁.replaceChannelMember row))
    (hlast : ∀ v, next (operate (.replaceChannelMember row) v).1 = .done o₁)
    (hlook : b.looksInto c.id)
    (hrest : Interleaved operate (.call (.replaceChannelMember row) next)
      (answer rB (respond turnsB b)) db₁ oA oB db') :
    SomeOrder p (answer rB (respond turnsB b)) db oA oB db' := by
  have hnone : ∀ m ∈ db.channelMembers, m.channel ≠ c.id := by
    intro m hm hid
    exact hnew (hid ▸ hdb.memberChannel m hm)
  obtain ⟨o, hread, hread₁⟩ := readsAlike_request (r := rB) hnone hdb₁ hlook
  obtain ⟨q', hq', hlate⟩ := Interleaved.late (fun v => ⟨hlast v, rfl⟩) hread₁ hrest
  have hcarries : Carries operate (fun _ => False) db₁ (db₁.replaceChannelMember row)
      (answer rB (respond turnsB b)) := by
    apply carries_request hrel hgrows
    · exact fun _ _ _ hs _ => .inl hs
    · intro q u _ hmem
      by_cases hchan : row.channel = q.chanId
      · obtain ⟨m, hm, -⟩ := List.mem_map.mp hmem
        obtain ⟨hm, hid⟩ := List.mem_filter.mp hm
        rw [hdb₁] at hm
        exact absurd ((decide_eq_true_eq.mp hid).trans (hchan.symm.trans hrow)) (hnone m hm)
      · exact .inl (membersOf_replaceChannelMember hchan db₁)
    · rintro q c' w rfl
      exact absurd hlook id
    · exact fun l u others _ hnamed _ => .inl ⟨⟨u, others, hnamed, rfl, rfl⟩, rfl⟩
  rcases hcarries q' hq' with hended | hadv | hfalse
  · obtain ⟨o₂, rfl⟩ := ended_iff.mp hended
    cases hlate
    have hsame : (o, db₁) = (oB, db₁) := hread₁.run.symm.trans hq'.run
    cases hsame
    exact .inr ⟨db, hread.run, hp⟩
  · exact .inl (hadv.serial_of_advances hp hlate)
  · exact hfalse.elim

/-- The other request happens between the two writes of new_channel. -/
theorem someOrder_of_split (hdb : Sound db) {next₀ : Except Exc Int32 → Handler Response}
    {q' : Handler Response}
    (hp : Advances operate db (answer rA (respond turnsA a))
      (.call (.insertChannel name ownerId desc) next₀))
    (hq : Advances operate db (answer rB (respond turnsB b)) q')
    (hins : db.insertChannel name ownerId desc = .ok (id, db₁))
    (hnext : next₀ (.ok id) = .call (.replaceChannelMember { user := ownerId, channel := id }) next)
    (hend : ∀ x, (next x).ended = true)
    (hrest : Interleaved operate
      (.call (.replaceChannelMember { user := ownerId, channel := id }) next) q' db₁ oA oB db')
    (hclash : ∀ sA sB, oA = .returned sA → oB = .returned sB → ¬ Clash db rA a sA b sB) :
    ∃ d, d.SameRows db' ∧
      SomeOrder (answer rA (respond turnsA a)) (answer rB (respond turnsB b)) db oA oB d := by
  obtain ⟨o₁, ho₁⟩ := ended_iff.mp (hend (.ok ()))
  have hlast : ∀ v : Database,
      next (operate (.replaceChannelMember { user := ownerId, channel := id }) v).1 = .done o₁ :=
    fun _ => ho₁
  obtain rfl : o₁ = oA := hrest.of_last hlast
  have hcall : operate (.insertChannel name ownerId desc) db = (.ok id, db₁) := by
    simp only [operate, perform, hins]
  have hafter : (Program.call (.replaceChannelMember { user := ownerId, channel := id })
      next).run operate db₁ =
        (o₁, db₁.replaceChannelMember { user := ownerId, channel := id }) := by
    show (next (.ok ())).run operate _ = _
    rw [ho₁]
    rfl
  have hrun : (answer rA (respond turnsA a)).run operate db =
      (o₁, db₁.replaceChannelMember { user := ownerId, channel := id }) := by
    rw [hp.run, run_call hcall, hnext, hafter]
  let c : Channel := { id := id, name := name, ownerId := ownerId, desc := desc }
  have hnew : ¬ db.HasChannel id ∧ db₁ = { db with channels := db.channels ++ [c] } := by
    obtain ⟨hfree, rfl, rfl⟩ := Database.insertChannel_eq_ok hins
    refine ⟨?_, rfl⟩
    rintro ⟨c, hc, hid⟩
    exact hfree ⟨c, hc, .inl hid⟩
  obtain ⟨hnew, hdb₁⟩ := hnew
  have hchannels : db₁.channels = db.channels ++ [c] := by rw [hdb₁]
  obtain ⟨env, hwritten⟩ := written_of_answer hrun
  obtain ⟨q, s, rfl, hs, huser, howner, hreply⟩ := hwritten.of_newChannel hchannels
  obtain ⟨hrel₁, hgrows₁⟩ := insertChannel_keeps hdb.relational howner hins
  rcases carries_insertChannel hdb.relational hrel₁ hgrows₁ hins q' hq with hended | hadv | hfalse
  · -- the other request had ended before
    obtain ⟨o₂, rfl⟩ := ended_iff.mp hended
    obtain ⟨rfl, hbehind⟩ := hrest.swap.of_done
    refine ⟨db', .refl _, .inr ⟨db, hq.run, ?_⟩⟩
    rw [hp.run, run_call hcall, hnext, hbehind]
  · have hrest' := hadv.interleaved hrest
    by_cases hlook : b.looksInto id
    · let row : ChannelMember := { user := ownerId, channel := id }
      have hmember : db₁.HasUser row.user := hgrows₁.hasUser howner
      have hchannel : db₁.HasChannel row.channel := by
        refine ⟨c, ?_, rfl⟩
        rw [hchannels]
        exact List.mem_append_right _ List.mem_cons_self
      obtain ⟨hrel, hgrows⟩ := replaceChannelMember_keeps hrel₁ hmember hchannel
      exact ⟨db', .refl _, someOrder_of_looksInto (c := c) hdb.relational hdb₁ hnew rfl hrel hgrows
        hrun hlast hlook hrest'⟩
    · rcases Interleaved.early (fun v => ⟨hlast v, rfl⟩) Database.SameRows.refl
        (yieldsTo_request hlook db₁) hrest' with ⟨hinvites, hokay⟩ | ⟨d, hd, hrunB⟩
      · obtain ⟨k, rfl, hchan, huid⟩ := hinvites
        rw [hreply, hokay] at hclash
        obtain rfl : k.chanId = id := hchan
        exact absurd (Clash.owner hs (huid.trans huser.symm)) (hclash _ _ rfl rfl)
      · exact ⟨d, hd, .inl ⟨_, hrun, hrunB⟩⟩
  · exact hfalse.elim

/-- The first write is one of the first request. -/
theorem someOrder_of_writesFirst (hdb : Sound db)
    (h : WritesFirst operate (answer rA (respond turnsA a)) (answer rB (respond turnsB b)) db oA oB
      db') (hrunning : oB ≠ .running)
    (hclash : ∀ sA sB, oA = .returned sA → oB = .returned sB → ¬ Clash db rA a sA b sB) :
    ∃ d, d.SameRows db' ∧
      SomeOrder (answer rA (respond turnsA a)) (answer rB (respond turnsB b)) db oA oB d := by
  obtain ⟨c, next, q', hp, hq, hc, hrest⟩ := h
  have hends : (next (operate c db).1).ended = true → ∃ d, d.SameRows db' ∧
      SomeOrder (answer rA (respond turnsA a)) (answer rB (respond turnsB b)) db oA oB d := by
    intro hended
    have hovertaken := Overtaken.of_last hp hq hended hrest
    exact ⟨db', .refl _, someOrder_of_overtaken hdb hovertaken hrunning hclash⟩
  rcases (writesLast_answer rA turnsA a).advances hp with ⟨hreads, -⟩ | ⟨-, -, hlast⟩
  · obtain ⟨x, hx⟩ := operate_reads hreads db
    rw [hx] at hc
    exact absurd rfl hc
  · cases hlast with
    | last hended => exact hends (hended _)
    | @join name ownerId desc next herror hjoin =>
      cases hins : db.insertChannel name ownerId desc with
      | error e =>
        apply hends
        simp only [operate, perform, hins]
        exact herror e
      | ok inserted =>
        obtain ⟨id, db₁⟩ := inserted
        obtain ⟨next', hnext, hend⟩ := hjoin id
        simp only [operate, perform, hins, hnext] at hrest
        exact someOrder_of_split hdb hp hq hins hnext hend hrest hclash

/-- Two requests whose operations alternate come to the same as in one of the two
orders, unless they clash. -/
theorem someOrder_of_interleaved (hdb : Sound db)
    (h : Interleaved operate (answer rA (respond turnsA a)) (answer rB (respond turnsB b)) db oA oB
      db') (hA : oA ≠ .running) (hB : oB ≠ .running)
    (hclash : ∀ sA sB, oA = .returned sA → oB = .returned sB →
      ¬ Clash db rA a sA b sB ∧ ¬ Clash db rB b sB a sA) :
    ∃ d, d.SameRows db' ∧
      SomeOrder (answer rA (respond turnsA a)) (answer rB (respond turnsB b)) db oA oB d := by
  have hclash' : ∀ sB sA, oB = .returned sB → oA = .returned sA → ¬ Clash db rB b sB a sA :=
    fun sB sA hB hA => (hclash sA sB hA hB).2
  rcases h.first_write with hovertaken | hfirst | hsecond
  · refine ⟨db', .refl _, someOrder_of_overtaken hdb hovertaken hB ?_⟩
    exact fun sA sB hA hB => (hclash sA sB hA hB).1
  · apply someOrder_of_writesFirst hdb hfirst hB
    exact fun sA sB hA hB => (hclash sA sB hA hB).1
  · obtain ⟨d, hd, hserial⟩ := someOrder_of_writesFirst hdb hsecond hA hclash'
    exact ⟨d, hd, hserial.symm⟩

end Split

/-- The clash of two requests, as the clients see it: by their messages and the
replies. -/
def Clashing (db : Database) (rA rB : Readings) (mA mB : Message) (oA oB : Outcome Exc Message) :
    Prop :=
  ∃ a b sA sB, Request.Parses mA a ∧ Request.Parses mB b ∧
    oA = replyOf Response.toMessage (.returned sA) ∧
    oB = replyOf Response.toMessage (.returned sB) ∧
    (Clash db rA a sA b sB ∨ Clash db rB b sB a sA)

section Dispatched

variable {jA jB : Job} {rA rB : Readings} {oA oB : Outcome Exc Message}

theorem someOrder_dispatched {db db' : Database} (hdb : Sound db)
    (hrun : Interleaved operate (answer rA jA.program) (answer rB jB.program) db oA oB db')
    (hA : oA ≠ .running) (hB : oB ≠ .running)
    (hclash : ¬ Clashing db rA rB jA.msg jB.msg oA oB) :
    ∃ d, d.SameRows db' ∧
      SomeOrder (answer rA jA.program) (answer rB jB.program) db oA oB d := by
  have hA' : jA.program = dispatch jA.turns jA.msg := rfl
  have hB' : jB.program = dispatch jB.turns jB.msg := rfl
  rcases dispatch_finish jA.turns jA.msg with ⟨o, ho⟩ | ⟨a, ha, hdispatchA⟩
  · rw [hA', ho] at hrun ⊢
    obtain ⟨rfl, hbehind⟩ := hrun.of_done
    exact ⟨db', .refl _, .inl ⟨_, rfl, hbehind⟩⟩
  · rcases dispatch_finish jB.turns jB.msg with ⟨o, ho⟩ | ⟨b, hb, hdispatchB⟩
    · rw [hB', ho] at hrun ⊢
      obtain ⟨rfl, hbehind⟩ := hrun.swap.of_done
      exact ⟨db', .refl _, .inr ⟨_, rfl, hbehind⟩⟩
    · rw [hA', hB', hdispatchA, hdispatchB, answer_finish, answer_finish] at hrun ⊢
      obtain ⟨oₚ, o_q, rfl, rfl, hrest⟩ := Interleaved.of_finish _ _ hrun
      have hpair : ∀ sA sB, oₚ = .returned sA → o_q = .returned sB →
          ¬ Clash db rA a sA b sB ∧ ¬ Clash db rB b sB a sA := by
        rintro sA sB rfl rfl
        refine ⟨fun hc => hclash ?_, fun hc => hclash ?_⟩
        · exact ⟨a, b, sA, sB, ha, hb, rfl, rfl, .inl hc⟩
        · exact ⟨a, b, sA, sB, ha, hb, rfl, rfl, .inr hc⟩
      have hrunningA : oₚ ≠ .running := by
        rintro rfl
        exact hA rfl
      have hrunningB : o_q ≠ .running := by
        rintro rfl
        exact hB rfl
      obtain ⟨d, hrows, horder⟩ :=
        someOrder_of_interleaved hdb hrest hrunningA hrunningB hpair
      refine ⟨d, hrows, ?_⟩
      rcases horder with hserial | hserial
      · exact .inl (hserial.finish _ _)
      · exact .inr (hserial.finish _ _)

end Dispatched

/-- The master has logged in, and a guest has got an account. -/
def hosting : List (Move Job) :=
  .spawn ⟨1, masterLogin⟩ :: List.replicate 6 (.call 0) ++
    [.spawn ⟨0, NewUserRequest.toMessage { name := ascii "guest", pass := ascii "pass" }⟩, .call 1]

def hosted : ServerPool := schedule (perform twoDaysLater) Job.program { store := {} } hosting

theorem hosted_reached : ReachedPool twoDaysLater hosted :=
  Reached.schedule .init hosting

def drawNine : Readings where
  now := stopped.clock
  nowUncut := stopped.clock
  rand _ := 9

def Message.answered (m : Message) : Handler Message := answer drawNine (Job.program ⟨1, m⟩)

def newLobby : Message :=
  NewChannelRequest.toMessage { token := 7, name := ascii "lobby", desc := none }

def logoutMaster : Message := LogoutRequest.toMessage { token := 7 }

def invitation (uid chanId : Int32) : Message :=
  InviteUserRequest.toMessage { token := 7, uid := uid, chanId := chanId }

/-- The second request is handled before the last of the calls of the first one. -/
def beforeLast (k n : ℕ) : List Bool :=
  List.replicate k true ++ List.replicate n false ++ [true]

/-- The replies are not those of either order, whatever the database is then. -/
def Unmatched (p q : Handler Message) (db : Database) (o o' : Outcome Exc Message) : Prop :=
  ¬ ((p.run operate db).1 = o ∧ (q.run operate (p.run operate db).2).1 = o') ∧
    ¬ ((q.run operate db).1 = o' ∧ (p.run operate (q.run operate db).2).1 = o)

instance (p q : Handler Message) (db : Database) (o o' : Outcome Exc Message) :
    Decidable (Unmatched p q db o o') :=
  inferInstanceAs (Decidable (_ ∧ _))

/-- The requests can end with replies that neither order gives. -/
def Mismatch (p q : Handler Message) (db : Database) : Prop :=
  ∃ o o' db', Interleaved operate p q db o o' db' ∧ o ≠ .running ∧ o' ≠ .running ∧
    ∀ d, ¬ SomeOrder p q db o o' d

theorem mismatch_of_interleave {p q : Handler Message} {db : Database} (moves : List Bool)
    (h : ∃ e ∈ interleave operate moves p q db,
      e.1 ≠ .running ∧ e.2.1 ≠ .running ∧ Unmatched p q db e.1 e.2.1) : Mismatch p q db := by
  obtain ⟨⟨o, o', db'⟩, he, ho, ho', hpq, hqp⟩ := h
  refine ⟨o, o', db', .of_interleave he, ho, ho', ?_⟩
  rintro d (hserial | hserial)
  · obtain ⟨hp, hq⟩ := serial_iff.mp hserial
    refine hpq ⟨hp, ?_⟩
    rw [hq]
  · obtain ⟨hq, hp⟩ := serial_iff.mp hserial
    refine hqp ⟨hq, ?_⟩
    rw [hp]

/-- Two messages that are dispatched on two threads, in every reached state and
with their operations in any order, get the replies that they get one after the
other in one of the two orders, and the database has the rows that it has then,
unless the requests clash. -/
theorem serializable_of_reached {env : Env} {pool : ServerPool} (h : ReachedPool env pool)
    {jA jB : Job} {rA rB : Readings} {oA oB : Outcome Exc Message} {db' : Database}
    (hrun : Interleaved operate (answer rA jA.program) (answer rB jB.program) pool.store.db oA oB
      db') (hA : oA ≠ .running) (hB : oB ≠ .running)
    (hclash : ¬ Clashing pool.store.db rA rB jA.msg jB.msg oA oB) :
    ∃ d, d.SameRows db' ∧
      SomeOrder (answer rA jA.program) (answer rB jB.program) pool.store.db oA oB d :=
  someOrder_dispatched (sound_of_reached h) hrun hA hB hclash

theorem serializable_of_reached_newLobby : ∃ o o' db' d,
    Interleaved operate newLobby.answered (invitation 2 2).answered hosted.store.db o o' db' ∧
      d.SameRows db' ∧
      SomeOrder newLobby.answered (invitation 2 2).answered hosted.store.db o o' d := by
  have hrun : ∃ e ∈ interleave operate (beforeLast 3 6) newLobby.answered
      (invitation 2 2).answered hosted.store.db, e.1 ≠ .running ∧ e.2.1 ≠ .running := by
    decide +kernel
  obtain ⟨⟨o, o', db'⟩, he, ho, ho'⟩ := hrun
  have hinterleaved := Interleaved.of_interleave he
  have hclash : ¬ Clashing hosted.store.db drawNine drawNine newLobby (invitation 2 2) o o' := by
    have hlogin : newLobby.cmd ≠ ascii Commands.login := by decide +kernel
    have hlogout : newLobby.cmd ≠ ascii Commands.logout := by decide +kernel
    have hinvite : newLobby.cmd ≠ ascii Commands.inviteUser := by decide +kernel
    rintro ⟨a, b, sA, sB, ha, hb, -, -, hc | hc⟩
    · cases hc with
      | logins _ _ => exact hlogin ha.cmd
      | logouts _ _ _ => exact hlogout ha.cmd
      | invitations _ _ => exact hinvite ha.cmd
      | @owner q q' s hs huid =>
        have hq : NewChannelRequest.mk ⟨7⟩ (ascii "lobby") none = q := Except.ok.inj ha
        have hq' : InviteUserRequest.mk ⟨7⟩ 2 2 = q' := Except.ok.inj hb
        have huser : ∀ s ∈ hosted.store.db.getSessionKey 7, s.user = 1 := by decide +kernel
        rw [← hq] at hs
        rw [← hq', huser s hs] at huid
        cases huid
    · cases hc with
      | logins _ _ => exact hlogin ha.cmd
      | logouts _ _ _ => exact hlogout ha.cmd
      | invitations _ _ | owner _ _ => exact hinvite ha.cmd
  obtain ⟨d, hrows, horder⟩ :=
    serializable_of_reached hosted_reached hinterleaved ho ho' hclash
  exact ⟨o, o', db', d, hinterleaved, hrows, horder⟩

/-- Each of the clashes happens. And when the guest is invited into a channel between
the two writes of new_channel, the memberships are stored in an order of their own. -/
theorem clashes_happen :
    ReachedPool twoDaysLater hosted ∧
      Mismatch masterLogin.answered masterLogin.answered hosted.store.db ∧
      Mismatch logoutMaster.answered logoutMaster.answered hosted.store.db ∧
      Mismatch (invitation 2 1).answered (invitation 2 1).answered hosted.store.db ∧
      Mismatch newLobby.answered (invitation 1 2).answered hosted.store.db ∧
      ∃ o o' db', Interleaved operate newLobby.answered (invitation 2 2).answered hosted.store.db
        o o' db' ∧ o ≠ .running ∧ o' ≠ .running ∧
          ¬ SomeOrder newLobby.answered (invitation 2 2).answered hosted.store.db o o' db' := by
  refine ⟨hosted_reached, ?_, ?_, ?_, ?_, ?_⟩
  · exact mismatch_of_interleave (beforeLast 2 3) (by decide +kernel)
  · exact mismatch_of_interleave (beforeLast 2 3) (by decide +kernel)
  · exact mismatch_of_interleave (beforeLast 5 6) (by decide +kernel)
  · exact mismatch_of_interleave (beforeLast 3 6) (by decide +kernel)
  · have hrun : ∃ e ∈ interleave operate (beforeLast 3 6) newLobby.answered
        (invitation 2 2).answered hosted.store.db, e.1 ≠ .running ∧ e.2.1 ≠ .running ∧
          ¬ SomeOrder newLobby.answered (invitation 2 2).answered hosted.store.db e.1 e.2.1
            e.2.2 := by
      simp only [SomeOrder, serial_iff]
      decide +kernel
    obtain ⟨⟨o, o', db'⟩, he, ho, ho', hnot⟩ := hrun
    exact ⟨o, o', db', .of_interleave he, ho, ho', hnot⟩

end Dotchat
