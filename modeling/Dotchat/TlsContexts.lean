import Dotchat.TlsObjects

/-!
Contexts of the TLS library. `tls_context` owns an `SSL_CTX`, which copying makes
anew from the files of the original and moving swaps. Copy assignment frees the old
`SSL_CTX` before it makes the new one, and move assignment leaves the mode behind:
both are safe in some programs only, and the results say in which.
-/
namespace Dotchat

/-- An `SSL_CTX`, and for which side it was made. -/
structure SslCtx where
  addr : ℕ
  method : Mode
  deriving DecidableEq

structure TlsContext where
  internal : Option SslCtx := none
  operation : Mode
  key : Bytes := []
  cert : Bytes := []
  deriving DecidableEq

/-- A context, and where it is stored. -/
structure StoredContext where
  loc : ℕ
  ctxt : TlsContext
  deriving DecidableEq

/-- The results of `SSL_CTX_new` and of reading the certificates and the key. -/
structure SetupCalls where
  created : Option ℕ
  certificate : ℤ
  privateKey : ℤ
  deriving DecidableEq

structure TlsContexts where
  contexts : List StoredContext := []
  ctxs : HandlePool ℕ := {}
  /-- what `server_setup` and `client_setup` had made when they threw -/
  leaked : List ℕ := []
  deriving DecidableEq

inductive ContextOp
  | clientContext (i : ℕ) (cert : Bytes) (r : SetupCalls)
  | serverContext (i : ℕ) (key cert : Bytes) (r : SetupCalls)
  | copyConstruct (i src : ℕ) (r : SetupCalls)
  | moveConstruct (i src : ℕ)
  | copyAssign (i src : ℕ) (r : SetupCalls)
  | moveAssign (i src : ℕ)
  | destroy (i : ℕ)
  deriving DecidableEq

/-- What the destructors of contexts free. -/
def heldBy (contexts : List StoredContext) : List ℕ :=
  contexts.flatMap fun c => (c.ctxt.internal.map (·.addr)).toList

namespace TlsContexts

variable (q : TlsContexts)

def find (i : ℕ) : Option StoredContext := Table.lookup (·.loc) i q.contexts

def setContext (i : ℕ) (ctxt : TlsContext) : TlsContexts :=
  { q with contexts := Table.update (·.loc) { loc := i, ctxt := ctxt } q.contexts }

def addContext (i : ℕ) (ctxt : TlsContext) : TlsContexts :=
  { q with contexts := q.contexts ++ [{ loc := i, ctxt := ctxt }] }

/-- A call of `SSL_CTX_new` and what follows it, with the `SSL_CTX` unless it throws. -/
def makeCtx (method : Mode) (created : Option ℕ) (succeeds : Bool) :
    Option (TlsContexts × Option SslCtx) :=
  match created with
  | none => some (q, none)
  | some addr => do
      let ctxs ← q.ctxs.acquire addr
      if succeeds then pure ({ q with ctxs := ctxs }, some { addr := addr, method := method })
      else pure ({ q with ctxs := ctxs, leaked := addr :: q.leaked }, none)

def serverSetup (r : SetupCalls) : Option (TlsContexts × Option SslCtx) :=
  q.makeCtx .server r.created (¬ r.certificate ≤ 0 ∧ ¬ r.privateKey ≤ 0)

def clientSetup (r : SetupCalls) : Option (TlsContexts × Option SslCtx) :=
  q.makeCtx .client r.created (¬ r.certificate ≤ 0)

def setup : Mode → SetupCalls → Option (TlsContexts × Option SslCtx)
  | .server, r => q.serverSetup r
  | .client, r => q.clientSetup r

/-- `SSL_CTX_free`, unless `internal` is null. -/
def free (internal : Option SslCtx) : TlsContexts :=
  match internal with
  | none => q
  | some ctx => { q with ctxs := q.ctxs.release ctx.addr }

/-- A constructor that makes a new `SSL_CTX`. When it throws there is no object. -/
def construct (i : ℕ) (operation : Mode) (key cert : Bytes) (r : SetupCalls) :
    Option TlsContexts :=
  if (q.find i).isSome then none
  else do
    let (q', got) ← q.setup operation r
    match got with
    | none => pure q'
    | some ctx =>
        pure (q'.addContext i
          { internal := some ctx, operation := operation, key := key, cert := cert })

def step : ContextOp → Option TlsContexts
  | .clientContext i cert r => q.construct i .client [] cert r
  | .serverContext i key cert r => q.construct i .server key cert r
  | .copyConstruct i src r => do
      let other ← q.find src
      q.construct i other.ctxt.operation other.ctxt.key other.ctxt.cert r
  | .moveConstruct i src =>
      if (q.find i).isSome then none
      else do
        let other ← q.find src
        pure ((q.setContext src { operation := other.ctxt.operation }).addContext i other.ctxt)
  | .copyAssign i src r => do
      let this ← q.find i
      let other ← q.find src
      if i = src then pure q
      else do
        let (q', got) ← (q.free this.ctxt.internal).setup other.ctxt.operation r
        -- when `setup` throws, `internal` still points to what was freed
        pure (q'.setContext i { other.ctxt with internal := got.or this.ctxt.internal })
  | .moveAssign i src => do
      let this ← q.find i
      let other ← q.find src
      pure ((q.setContext i { other.ctxt with operation := this.ctxt.operation }).setContext src
        { this.ctxt with operation := other.ctxt.operation })
  | .destroy i => do
      let this ← q.find i
      pure { q.free this.ctxt.internal with contexts := q.contexts.filter (·.loc ≠ i) }

def run (ops : List ContextOp) : Option TlsContexts := Machine.run step q ops

def held : List ℕ := heldBy q.contexts

/-- The mode of each context is that of its `SSL_CTX`. -/
def Matched : Prop :=
  ∀ c ∈ q.contexts, ∀ ctx, c.ctxt.internal = some ctx → ctx.method = c.ctxt.operation

end TlsContexts

/-- `server_setup` or `client_setup` throws. -/
def SetupCalls.Fails (r : SetupCalls) (mode : Mode) : Prop :=
  r.created = none ∨ r.certificate ≤ 0 ∨ mode = .server ∧ r.privateKey ≤ 0

namespace TlsContexts

/-- A copy assignment that throws behind freeing the old `SSL_CTX`. -/
inductive Dangles (q : TlsContexts) : ContextOp → Prop
  | copyAssign {i src : ℕ} {r : SetupCalls} {this other : StoredContext} {ctx : SslCtx}
      (hne : i ≠ src) (hthis : q.find i = some this) (hother : q.find src = some other)
      (hctx : this.ctxt.internal = some ctx) (hfails : r.Fails other.ctxt.operation) :
      Dangles q (.copyAssign i src r)

/-- An assignment that brings a mode and an `SSL_CTX` for the other side together. -/
inductive Mismatches (q : TlsContexts) : ContextOp → Prop
  | copyAssign {i src : ℕ} {r : SetupCalls} {this other : StoredContext} {ctx : SslCtx}
      (hne : i ≠ src) (hthis : q.find i = some this) (hother : q.find src = some other)
      (hctx : this.ctxt.internal = some ctx) (hfails : r.Fails other.ctxt.operation)
      (hmodes : this.ctxt.operation ≠ other.ctxt.operation) : Mismatches q (.copyAssign i src r)
  | moveAssign {i src : ℕ} {this other : StoredContext} (hthis : q.find i = some this)
      (hother : q.find src = some other)
      (hctx : this.ctxt.internal.isSome ∨ other.ctxt.internal.isSome)
      (hmodes : this.ctxt.operation ≠ other.ctxt.operation) : Mismatches q (.moveAssign i src)

section Setup

variable {q q' : TlsContexts} {mode : Mode} {r : SetupCalls} {got : Option SslCtx}

/-- What `server_setup` and `client_setup` do. -/
structure SetUp (q : TlsContexts) (mode : Mode) (r : SetupCalls) (q' : TlsContexts)
    (got : Option SslCtx) : Prop where
  contexts : q'.contexts = q.contexts
  throws : got = none ↔ r.Fails mode
  method : ∀ ctx, got = some ctx → ctx.method = mode
  transfer : ∀ mine : List ℕ, HandlePool.Transfer q.ctxs (mine ++ q.leaked) 0 q'.ctxs
    ((got.map (·.addr)).toList ++ mine ++ q'.leaked)

theorem makeCtx_setUp {method : Mode} {created : Option ℕ} {succeeds : Bool}
    (h : q.makeCtx method created succeeds = some (q', got)) :
    q'.contexts = q.contexts ∧ (got = none ↔ created = none ∨ succeeds = false) ∧
      (∀ ctx, got = some ctx → ctx.method = method) ∧
      ∀ mine : List ℕ, HandlePool.Transfer q.ctxs (mine ++ q.leaked) 0 q'.ctxs
        ((got.map (·.addr)).toList ++ mine ++ q'.leaked) := by
  cases created with
  | none =>
    cases h
    exact ⟨rfl, by simp, by simp, fun mine => .keeps .rfl⟩
  | some addr =>
    obtain ⟨ctxs, hctxs, h⟩ := Option.bind_eq_some_iff.mp h
    cases succeeds with
    | true =>
      cases h
      exact ⟨rfl, by simp, by simp, fun mine => .takes hctxs⟩
    | false =>
      cases h
      exact ⟨rfl, by simp, by simp, fun mine =>
        HandlePool.transfer_takes hctxs List.perm_middle⟩

theorem setup_setUp (h : q.setup mode r = some (q', got)) : SetUp q mode r q' got := by
  cases mode with
  | server =>
    obtain ⟨hcontexts, hthrows, hmethod, htransfer⟩ := makeCtx_setUp h
    refine ⟨hcontexts, hthrows.trans (or_congr_right ?_), hmethod, htransfer⟩
    simp only [decide_eq_false_iff_not, true_and]
    omega
  | client =>
    obtain ⟨hcontexts, hthrows, hmethod, htransfer⟩ := makeCtx_setUp h
    refine ⟨hcontexts, hthrows.trans (or_congr_right ?_), hmethod, htransfer⟩
    simp

end Setup

section Steps

variable {q q' : TlsContexts} {op : ContextOp} {i src : ℕ} {ctxt : TlsContext}
  {this : StoredContext}

theorem find_eq_none : q.find i = none ↔ ∀ c ∈ q.contexts, c.loc ≠ i := Table.lookup_eq_none

theorem held_addContext : (q.addContext i ctxt).held =
    q.held ++ (ctxt.internal.map (·.addr)).toList := by
  rw [held, addContext, heldBy, List.flatMap_append, List.flatMap_singleton, held, heldBy]

@[simp] theorem free_contexts (internal : Option SslCtx) :
    (q.free internal).contexts = q.contexts := by
  unfold free
  split <;> rfl

@[simp] theorem free_leaked (internal : Option SslCtx) : (q.free internal).leaked = q.leaked := by
  unfold free
  split <;> rfl

/-- Contexts are stored in different places. -/
def Placed (q : TlsContexts) : Prop := Table.Keyed (·.loc) q.contexts

/-- Another value of a context changes what that context will free. -/
theorem held_setContext (h : q.Placed) (ctxt : TlsContext) (hthis : q.find i = some this) :
    ((q.setContext i ctxt).held ++ (this.ctxt.internal.map (·.addr)).toList).Perm
      (q.held ++ (ctxt.internal.map (·.addr)).toList) :=
  Table.flatMap_update (r := (⟨i, ctxt⟩ : StoredContext)) h hthis

theorem transfer_free {mine rest : List ℕ} {internal : Option SslCtx}
    (h : mine.Perm ((internal.map (·.addr)).toList ++ rest)) :
    HandlePool.Transfer q.ctxs mine 0 (q.free internal).ctxs rest := by
  unfold free
  cases internal with
  | none => exact .keeps h
  | some ctx => exact HandlePool.transfer_gives h

theorem construct_cases {mode : Mode} {key cert : Bytes} {r : SetupCalls}
    (h : q.construct i mode key cert r = some q') : q.find i = none ∧ ∃ t got,
      q.setup mode r = some (t, got) ∧ q' = match got with
        | none => t
        | some ctx => t.addContext i
            { internal := some ctx, operation := mode, key := key, cert := cert } := by
  unfold construct at h
  split at h
  · cases h
  rename_i hfree
  obtain ⟨⟨t, got⟩, hsetup, h⟩ := Option.bind_eq_some_iff.mp h
  refine ⟨by simpa using hfree, t, got, hsetup, ?_⟩
  cases got with
  | none => exact (Option.some.inj h).symm
  | some ctx => exact (Option.some.inj h).symm

theorem transfer_construct {mode : Mode} {key cert : Bytes} {r : SetupCalls}
    (h : q.construct i mode key cert r = some q') :
    HandlePool.Transfer q.ctxs (q.held ++ q.leaked) 0 q'.ctxs (q'.held ++ q'.leaked) := by
  obtain ⟨-, t, got, hsetup, rfl⟩ := construct_cases h
  have hsetUp := setup_setUp hsetup
  have htransfer := hsetUp.transfer q.held
  have hheld : t.held = q.held := by rw [held, hsetUp.contexts, held]
  cases got with
  | none =>
    show HandlePool.Transfer _ _ _ t.ctxs (t.held ++ t.leaked)
    rw [hheld]
    exact htransfer
  | some ctx =>
    refine htransfer.of_perm ?_
    simp only [held_addContext, hheld]
    exact List.perm_append_comm.append_right _

/-- A copy assignment frees the old `SSL_CTX` first; if the new one is not made, the
object keeps the old one in its hands. -/
theorem transfer_copyAssign (hq : q.Placed) {r : SetupCalls} {other : StoredContext}
    {t : TlsContexts} {got : Option SslCtx} (hthis : q.find i = some this)
    (hsetup : (q.free this.ctxt.internal).setup other.ctxt.operation r = some (t, got)) :
    HandlePool.Transfer q.ctxs (q.held ++ q.leaked)
      (if got = none ∧ this.ctxt.internal ≠ none then 1 else 0) t.ctxs
      ((t.setContext i { other.ctxt with internal := got.or this.ctxt.internal }).held ++
        t.leaked) := by
  have hsetUp := setup_setUp hsetup
  have hfreed : HandlePool.Transfer q.ctxs (q.held ++ q.leaked) 0 (q.free this.ctxt.internal).ctxs
      (heldBy (q.contexts.filter (·.loc ≠ i)) ++ q.leaked) := by
    refine transfer_free ?_
    rw [← List.append_assoc]
    exact (Table.flatMap_of_lookup hq hthis).append_right _
  have hmade := hsetUp.transfer (heldBy (q.contexts.filter (·.loc ≠ i)))
  rw [free_leaked] at hmade
  have hafter (ctxt : TlsContext) : (t.setContext i ctxt).held.Perm
      ((ctxt.internal.map (·.addr)).toList ++ heldBy (q.contexts.filter (·.loc ≠ i))) := by
    rw [held, setContext, hsetUp.contexts, free_contexts]
    exact (Table.update_perm (r := (⟨i, ctxt⟩ : StoredContext)) hq hthis).flatMap_right _
  have hboth := hfreed.trans hmade
  cases got with
  | some ctx =>
    rw [if_neg (by simp)]
    exact hboth.of_perm ((hafter { other.ctxt with internal := some ctx }).symm.append_right _)
  | none =>
    have hkept := hafter { other.ctxt with internal := this.ctxt.internal }
    cases hinternal : this.ctxt.internal with
    | none =>
      rw [hinternal] at hkept
      rw [if_neg (by simp)]
      exact hboth.of_perm (hkept.symm.append_right _)
    | some ctx =>
      rw [hinternal] at hkept
      rw [if_pos (by simp)]
      exact hboth.trans (HandlePool.transfer_shares (hkept.append_right _))

theorem held_moveAssign (hq : q.Placed) {other : StoredContext} (hthis : q.find i = some this)
    (hother : q.find src = some other) :
    ((q.setContext i { other.ctxt with operation := this.ctxt.operation }).setContext src
      { this.ctxt with operation := other.ctxt.operation }).held.Perm q.held := by
  have hthis' : Table.lookup (·.loc)
      (⟨i, { other.ctxt with operation := this.ctxt.operation }⟩ : StoredContext).loc q.contexts =
        some this := hthis
  have hother' : Table.lookup (·.loc)
      (⟨src, { this.ctxt with operation := other.ctxt.operation }⟩ : StoredContext).loc q.contexts =
        some other := hother
  exact Table.flatMap_swap hq hthis' hother' rfl rfl

theorem transfer_step (hq : q.Placed) (hstep : q.step op = some q') :
    ∃ n, HandlePool.Transfer q.ctxs (q.held ++ q.leaked) n q'.ctxs (q'.held ++ q'.leaked) ∧
      (n = 0 ↔ ¬ q.Dangles op) := by
  cases op with
  | clientContext i cert r | serverContext i key cert r =>
    exact ⟨0, transfer_construct hstep, iff_of_true rfl fun h => nomatch h⟩
  | copyConstruct i src r =>
    obtain ⟨other, -, h⟩ := Option.bind_eq_some_iff.mp hstep
    exact ⟨0, transfer_construct h, iff_of_true rfl fun h => nomatch h⟩
  | moveConstruct i src =>
    simp only [step] at hstep
    split at hstep
    · cases hstep
    obtain ⟨other, hother, h⟩ := Option.bind_eq_some_iff.mp hstep
    cases h
    refine ⟨0, .keeps (.append_right _ ?_), iff_of_true rfl fun h => nomatch h⟩
    rw [held_addContext]
    have hset := held_setContext hq { operation := other.ctxt.operation } hother
    rw [Option.map_none, Option.toList_none, List.append_nil] at hset
    exact hset.symm
  | copyAssign i src r =>
    obtain ⟨this, hthis, h⟩ := Option.bind_eq_some_iff.mp hstep
    obtain ⟨other, hother, h⟩ := Option.bind_eq_some_iff.mp h
    split at h
    · rename_i hself
      cases h
      refine ⟨0, .keeps .rfl, iff_of_true rfl ?_⟩
      rintro (⟨hne, _, _, _, _⟩)
      exact hne hself
    · rename_i hne
      obtain ⟨⟨t, got⟩, hsetup, h⟩ := Option.bind_eq_some_iff.mp h
      cases h
      refine ⟨_, transfer_copyAssign hq hthis hsetup, ?_⟩
      have hthrows := (setup_setUp hsetup).throws
      constructor
      · intro hzero hdangles
        cases hdangles with
        | copyAssign _ hthis' hother' hctx hfails =>
          cases hthis.symm.trans hthis'
          cases hother.symm.trans hother'
          rw [if_pos ⟨hthrows.mpr hfails, by simp [hctx]⟩] at hzero
          cases hzero
      · intro hsafe
        refine if_neg ?_
        rintro ⟨hgot, hinternal⟩
        obtain ⟨ctx, hctx⟩ := Option.ne_none_iff_exists'.mp hinternal
        exact hsafe (.copyAssign hne hthis hother hctx (hthrows.mp hgot))
  | moveAssign i src =>
    obtain ⟨this, hthis, h⟩ := Option.bind_eq_some_iff.mp hstep
    obtain ⟨other, hother, h⟩ := Option.bind_eq_some_iff.mp h
    cases h
    exact ⟨0, .keeps ((held_moveAssign hq hthis hother).symm.append_right _),
      iff_of_true rfl fun h => nomatch h⟩
  | destroy i =>
    obtain ⟨this, hthis, h⟩ := Option.bind_eq_some_iff.mp hstep
    cases h
    refine ⟨0, ?_, iff_of_true rfl fun h => nomatch h⟩
    rw [free_leaked]
    refine transfer_free ?_
    rw [← List.append_assoc]
    exact (Table.flatMap_of_lookup hq hthis).append_right _

theorem placed_addContext (hq : q.Placed) (hnone : q.find i = none) :
    (q.addContext i ctxt).Placed :=
  Table.keyed_append hq (find_eq_none.mp hnone)

theorem placed_setContext (hq : q.Placed) : (q.setContext i ctxt).Placed := Table.keyed_update hq

theorem placed_construct (hq : q.Placed) {mode : Mode} {key cert : Bytes} {r : SetupCalls}
    (h : q.construct i mode key cert r = some q') : q'.Placed := by
  obtain ⟨hnone, t, got, hsetup, rfl⟩ := construct_cases h
  have hcontexts := (setup_setUp hsetup).contexts
  have ht : t.Placed := by rwa [Placed, hcontexts]
  cases got with
  | none => exact ht
  | some ctx => exact placed_addContext ht (by rwa [find, hcontexts])

theorem placed_step (hq : q.Placed) (hstep : q.step op = some q') : q'.Placed := by
  cases op with
  | clientContext i cert r | serverContext i key cert r => exact placed_construct hq hstep
  | copyConstruct i src r =>
    obtain ⟨other, -, h⟩ := Option.bind_eq_some_iff.mp hstep
    exact placed_construct hq h
  | moveConstruct i src =>
    simp only [step] at hstep
    split at hstep
    · cases hstep
    rename_i hfree
    have hnone : q.find i = none := by simpa using hfree
    obtain ⟨other, hother, h⟩ := Option.bind_eq_some_iff.mp hstep
    cases h
    refine placed_addContext (placed_setContext hq) ?_
    have hne : src ≠ i := by
      rintro rfl
      rw [hnone] at hother
      cases hother
    exact (Table.lookup_update_of_ne (r := (⟨src, _⟩ : StoredContext)) hne).trans hnone
  | copyAssign i src r =>
    obtain ⟨this, hthis, h⟩ := Option.bind_eq_some_iff.mp hstep
    obtain ⟨other, hother, h⟩ := Option.bind_eq_some_iff.mp h
    split at h
    · cases h
      exact hq
    · obtain ⟨⟨t, got⟩, hsetup, h⟩ := Option.bind_eq_some_iff.mp h
      cases h
      refine placed_setContext ?_
      rwa [Placed, (setup_setUp hsetup).contexts, free_contexts]
  | moveAssign i src =>
    obtain ⟨this, hthis, h⟩ := Option.bind_eq_some_iff.mp hstep
    obtain ⟨other, hother, h⟩ := Option.bind_eq_some_iff.mp h
    cases h
    exact placed_setContext (placed_setContext hq)
  | destroy i =>
    obtain ⟨this, hthis, h⟩ := Option.bind_eq_some_iff.mp hstep
    cases h
    exact Table.keyed_filter hq _

end Steps

section Runs

variable {q q' : TlsContexts} {op : ContextOp} {ops : List ContextOp}

theorem placed_run (hrun : run {} ops = some q) : q.Placed := by
  have hstart : Placed {} := .nil
  exact Machine.run_invariant (fun _ _ _ hp hstep => placed_step hp hstep) hstart hrun

/-- Every `SSL_CTX` is freed by the one context that it belongs to, exactly in the
programs in which no copy assignment throws that has freed the old one. -/
theorem contexts_accounted_iff (hrun : run {} ops = some q) :
    q.ctxs.Accounts (q.held ++ q.leaked) ↔ Machine.Avoids step Dangles {} ops := by
  have hcounted : ∃ n, q.ctxs.Balances (q.held ++ q.leaked).length n ∧
      (n = 0 → q.ctxs.Accounts (q.held ++ q.leaked)) ∧
      (n = 0 ↔ Machine.Avoids step Dangles {} ops) := by
    refine Machine.run_history (H := fun ops q => ∃ n,
      q.ctxs.Balances (q.held ++ q.leaked).length n ∧
        (n = 0 → q.ctxs.Accounts (q.held ++ q.leaked)) ∧
        (n = 0 ↔ Machine.Avoids step Dangles {} ops)) ?_ ?_ hrun
    · exact ⟨0, HandlePool.balances_start, fun _ => HandlePool.accounts_start,
        iff_of_true rfl trivial⟩
    · rintro before q op q' hq ⟨n, hbalances, haccounts, hbefore⟩ hstep
      obtain ⟨m, htransfer, hm⟩ := transfer_step (placed_run hq) hstep
      refine ⟨n + m, hbalances.transfer htransfer, ?_, ?_⟩
      · intro hzero
        obtain ⟨hn, hm⟩ := Nat.add_eq_zero_iff.mp hzero
        exact (haccounts hn).transfer htransfer hm
      · rw [Nat.add_eq_zero_iff, Machine.avoids_concat, hbefore, hm]
        refine and_congr_right fun _ => ⟨fun hsafe t ht => ?_, fun hsafe => hsafe q hq⟩
        cases hq.symm.trans ht
        exact hsafe
  obtain ⟨n, hbalances, haccounts, hn⟩ := hcounted
  rw [← hn]
  refine ⟨fun h => ?_, haccounts⟩
  by_contra hne
  exact hbalances.not_accounts hne h

/-- The files of the second context are gone when it is assigned to the first one. -/
def reassigned : List ContextOp :=
  [.serverContext 0 [1] [2] ⟨some 10, 1, 1⟩, .serverContext 1 [3] [4] ⟨some 11, 1, 1⟩,
    .copyAssign 0 1 ⟨some 12, 0, 0⟩, .destroy 0]

def freedTwice : TlsContexts where
  contexts :=
    [⟨1, { internal := some ⟨11, .server⟩, operation := .server, key := [3], cert := [4] }⟩]
  ctxs := { used := [12, 11], faults := 1 }
  leaked := [12]

theorem contexts_accounted_iff_reassigned :
    freedTwice.ctxs.Accounts (freedTwice.held ++ freedTwice.leaked) ↔
      Machine.Avoids step Dangles {} reassigned :=
  contexts_accounted_iff (by decide : run {} reassigned = some freedTwice)

end Runs

section Modes

variable {q q' : TlsContexts} {op : ContextOp} {ops : List ContextOp} {i src : ℕ}
  {this other c : StoredContext} {ctxt : TlsContext}

theorem mem_of_find (h : q.find i = some this) : this ∈ q.contexts := (Table.mem_of_lookup h).1

theorem mem_setContext_self (h : q.find i = some this) :
    ⟨i, ctxt⟩ ∈ (q.setContext i ctxt).contexts := by
  obtain ⟨hmem, hloc⟩ := Table.mem_of_lookup h
  exact List.mem_map.mpr ⟨this, hmem, if_pos hloc⟩

theorem mem_setContext_of_ne (hc : c ∈ q.contexts) (hne : c.loc ≠ i) :
    c ∈ (q.setContext i ctxt).contexts :=
  List.mem_map.mpr ⟨c, hc, if_neg hne⟩

theorem matched_construct (hq : q.Matched) {mode : Mode} {key cert : Bytes} {r : SetupCalls}
    (h : q.construct i mode key cert r = some q') : q'.Matched := by
  obtain ⟨-, t, got, hsetup, rfl⟩ := construct_cases h
  obtain ⟨hcontexts, -, hmethod, -⟩ := setup_setUp hsetup
  have ht : t.Matched := by rwa [Matched, hcontexts]
  cases got with
  | none => exact ht
  | some ctx =>
    intro c hc ctx' hctx'
    rcases List.mem_append.mp hc with hc | hc
    · exact ht c hc ctx' hctx'
    · obtain rfl := List.mem_singleton.mp hc
      cases hctx'
      exact hmethod ctx rfl

theorem matched_copyAssign (hq : q.Matched) {r : SetupCalls} (hne : i ≠ src)
    (hthis : q.find i = some this) (hother : q.find src = some other) {t : TlsContexts}
    {got : Option SslCtx}
    (hsetup : (q.free this.ctxt.internal).setup other.ctxt.operation r = some (t, got)) :
    (t.setContext i { other.ctxt with internal := got.or this.ctxt.internal }).Matched ↔
      ¬ q.Mismatches (.copyAssign i src r) := by
  obtain ⟨hcontexts, hthrows, hmethod, -⟩ := setup_setUp hsetup
  rw [free_contexts] at hcontexts
  have hfound : t.find i = some this := by rwa [find, hcontexts]
  constructor
  · intro hmatched hbad
    cases hbad with
    | copyAssign _ hthis' hother' hctx hfails hmodes =>
      cases hthis.symm.trans hthis'
      cases hother.symm.trans hother'
      have hgot := hthrows.mpr hfails
      have hafter := hmatched _ (mem_setContext_self hfound) _ (by rw [hgot]; exact hctx)
      exact hmodes ((hq this (mem_of_find hthis) _ hctx).symm.trans hafter)
  · intro hgood c hc ctx hctx
    rcases Table.mem_update hc with rfl | ⟨hc, -⟩
    · cases got with
      | some made =>
        obtain rfl := Option.some.inj hctx
        exact hmethod _ rfl
      | none =>
        by_contra hmodes
        refine hgood (.copyAssign hne hthis hother hctx (hthrows.mp rfl) ?_)
        rwa [← hq this (mem_of_find hthis) ctx hctx]
    · rw [hcontexts] at hc
      exact hq c hc ctx hctx

theorem matched_moveAssign (hq : q.Matched) (hthis : q.find i = some this)
    (hother : q.find src = some other) :
    ((q.setContext i { other.ctxt with operation := this.ctxt.operation }).setContext src
      { this.ctxt with operation := other.ctxt.operation }).Matched ↔
      ¬ q.Mismatches (.moveAssign i src) := by
  have hmine := hq this (mem_of_find hthis)
  have hyours := hq other (mem_of_find hother)
  constructor
  · intro hmatched hbad
    cases hbad with
    | moveAssign hthis' hother' hctx hmodes =>
      cases hthis.symm.trans hthis'
      cases hother.symm.trans hother'
      have hne : i ≠ src := by
        rintro rfl
        cases hthis.symm.trans hother
        exact hmodes rfl
      have hback : (q.setContext i { other.ctxt with operation := this.ctxt.operation }).find src =
          some other :=
        (Table.lookup_update_of_ne (r := (⟨i, _⟩ : StoredContext)) hne).trans hother
      rcases hctx with hctx | hctx
      · obtain ⟨ctx, hctx⟩ := Option.isSome_iff_exists.mp hctx
        have hafter := hmatched _ (mem_setContext_self hback) ctx hctx
        exact hmodes ((hmine ctx hctx).symm.trans hafter)
      · obtain ⟨ctx, hctx⟩ := Option.isSome_iff_exists.mp hctx
        have hafter := hmatched _
          (mem_setContext_of_ne (mem_setContext_self hthis) hne) ctx hctx
        exact hmodes (hafter.symm.trans (hyours ctx hctx))
  · intro hgood c hc ctx hctx
    rcases Table.mem_update hc with rfl | ⟨hc, -⟩
    · by_contra hmodes
      refine hgood (.moveAssign hthis hother (.inl (Option.isSome_iff_exists.mpr ⟨ctx, hctx⟩)) ?_)
      rwa [← hmine ctx hctx]
    · rcases Table.mem_update hc with rfl | ⟨hc, -⟩
      · by_contra hmodes
        refine hgood (.moveAssign hthis hother (.inr (Option.isSome_iff_exists.mpr ⟨ctx, hctx⟩)) ?_)
        rw [← hyours ctx hctx]
        exact Ne.symm hmodes
      · exact hq c hc ctx hctx

theorem matched_moveConstruct (hq : q.Matched) (hother : q.find src = some other) :
    ((q.setContext src { operation := other.ctxt.operation }).addContext i other.ctxt).Matched := by
  intro c hc ctx hctx
  rcases List.mem_append.mp hc with hc | hc
  · rcases Table.mem_update hc with rfl | ⟨hc, -⟩
    · cases hctx
    · exact hq c hc ctx hctx
  · obtain rfl := List.mem_singleton.mp hc
    exact hq other (mem_of_find hother) ctx hctx

theorem matched_step (hq : q.Matched) (hstep : q.step op = some q') :
    q'.Matched ↔ ¬ q.Mismatches op := by
  cases op with
  | clientContext i cert r | serverContext i key cert r =>
    exact iff_of_true (matched_construct hq hstep) fun h => nomatch h
  | copyConstruct i src r =>
    obtain ⟨other, -, h⟩ := Option.bind_eq_some_iff.mp hstep
    exact iff_of_true (matched_construct hq h) fun h => nomatch h
  | moveConstruct i src =>
    simp only [step] at hstep
    split at hstep
    · cases hstep
    obtain ⟨other, hother, h⟩ := Option.bind_eq_some_iff.mp hstep
    cases h
    exact iff_of_true (matched_moveConstruct hq hother) fun h => nomatch h
  | copyAssign i src r =>
    obtain ⟨this, hthis, h⟩ := Option.bind_eq_some_iff.mp hstep
    obtain ⟨other, hother, h⟩ := Option.bind_eq_some_iff.mp h
    split at h
    · rename_i hself
      cases h
      refine iff_of_true hq ?_
      rintro (⟨hne, _, _, _, _⟩ | _)
      exact hne hself
    · rename_i hne
      obtain ⟨⟨t, got⟩, hsetup, h⟩ := Option.bind_eq_some_iff.mp h
      cases h
      exact matched_copyAssign hq hne hthis hother hsetup
  | moveAssign i src =>
    obtain ⟨this, hthis, h⟩ := Option.bind_eq_some_iff.mp hstep
    obtain ⟨other, hother, h⟩ := Option.bind_eq_some_iff.mp h
    cases h
    exact matched_moveAssign hq hthis hother
  | destroy i =>
    obtain ⟨this, -, h⟩ := Option.bind_eq_some_iff.mp hstep
    cases h
    exact iff_of_true (fun c hc => hq c (List.mem_of_mem_filter hc)) fun h => nomatch h

/-- Copies are made for the side that the original is for, until an assignment brings a
mode and an `SSL_CTX` of different sides together. -/
theorem contexts_matched_iff (hrun : run {} ops = some q) :
    Machine.Always step Matched {} ops ↔ Machine.Avoids step Mismatches {} ops :=
  Machine.always_iff_avoids (fun _ _ _ hq hstep => matched_step hq hstep)
    (fun _ hc => absurd hc List.not_mem_nil) hrun

/-- A server context is moved into a client context and copied from there. -/
def mixed : List ContextOp :=
  [.clientContext 0 [1] ⟨some 10, 1, 1⟩, .serverContext 1 [2] [3] ⟨some 11, 1, 1⟩, .moveAssign 0 1,
    .copyConstruct 2 0 ⟨some 12, 1, 1⟩]

theorem contexts_matched_iff_mixed :
    Machine.Always step Matched {} mixed ↔ Machine.Avoids step Mismatches {} mixed := by
  obtain ⟨q, hq⟩ : ∃ q, run {} mixed = some q := ⟨_, rfl⟩
  exact contexts_matched_iff hq

end Modes
end TlsContexts
end Dotchat
