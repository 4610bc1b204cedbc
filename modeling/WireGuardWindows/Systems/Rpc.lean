import WireGuardWindows.Systems.Runs

/-!
# Calls over a pair of streams

A client and a server share two streams of values. The client's calls are serialised by a
lock; a call is a program that encodes and decodes values and returns. The server is a loop
that decodes a request, invokes the method it names and encodes what the method returned.
Neither side frames its messages: where one ends is known only from what the programs do.

A `Protocol` records what the two programs have in common: the request each call writes and
the reply it reads. From that it follows, for every schedule, that neither side ever decodes
a value it does not expect, that a call returns what the method returned for it, and that
the two sides agree on where messages end (`Lockstep`).
-/

namespace Systems.Rpc

inductive Client (M R : Type)
  | encode (v : M) (k : Client M R)
  | decode (k : M → Client M R)
  | ret (r : R)
  | fail

/-- The program of the server, between two moves of it. `loop` is the head of its loop,
`stop` where it gives up on a value it does not expect. -/
inductive Server (M Q : Type) (O : Q → Type)
  | decode (k : M → Server M Q O)
  | invoke (q : Q) (k : O q → Server M Q O)
  | encode (v : M) (k : Server M Q O)
  | loop
  | stop

variable {M Q R : Type} {O : Q → Type}

namespace Client

def sendAll : List M → Client M R → Client M R
  | [], p => p
  | v :: vs, p => .encode v (sendAll vs p)

def feed : Client M R → List M → Client M R
  | p, [] => p
  | .decode k, v :: vs => (k v).feed vs
  | _, _ :: _ => .fail

@[simp] theorem feed_nil (p : Client M R) : p.feed [] = p := by
  cases p <;> rfl

@[simp] theorem feed_fail (vs : List M) : (fail : Client M R).feed vs = fail := by
  cases vs <;> rfl

theorem of_feed_eq_ret {p : Client M R} {vs : List M} {r : R} (h : p.feed vs = .ret r) :
    (vs = [] ∧ p = .ret r) ∨ ∃ k v vs', vs = v :: vs' ∧ p = .decode k ∧
    (k v).feed vs' = .ret r := by
  cases vs with
  | nil => exact .inl ⟨rfl, by simpa using h⟩
  | cons v vs =>
    cases p with
    | decode k => exact .inr ⟨k, v, vs, rfl, rfl, h⟩
    | encode v k => cases h
    | ret r => cases h
    | fail => cases h

end Client

namespace Server

def sendAll : List M → Server M Q O → Server M Q O
  | [], sv => sv
  | v :: vs, sv => .encode v (sendAll vs sv)

def feed : Server M Q O → List M → Server M Q O
  | sv, [] => sv
  | .decode k, v :: vs => (k v).feed vs
  | _, _ :: _ => .stop

@[simp] theorem feed_nil (sv : Server M Q O) : sv.feed [] = sv := by
  cases sv <;> rfl

@[simp] theorem feed_stop (vs : List M) : (stop : Server M Q O).feed vs = stop := by
  cases vs <;> rfl

theorem feed_append (sv : Server M Q O) (vs ws : List M) :
    sv.feed (vs ++ ws) = (sv.feed vs).feed ws := by
  induction vs generalizing sv with
  | nil => simp
  | cons v vs ih =>
    cases sv with
    | decode k => exact ih (k v)
    | _ => exact (feed_stop ws).symm

end Server

structure Protocol (M Q R : Type) (O : Q → Type) where
  /-- The program of a call, and what the server does after the first value of a request. -/
  client : Q → Client M R
  body : M → Server M Q O
  /-- The values a call writes, and the program that is left after that. -/
  request : Q → List M
  await : Q → Client M R
  /-- The values the server answers with, and the result they stand for. -/
  reply : (q : Q) → O q → List M
  result : (q : Q) → O q → R
  client_eq : ∀ q, client q = .sendAll (request q) (await q)
  await_reply : ∀ q o, (await q).feed (reply q o) = .ret (result q o)
  body_request : ∀ q, (Server.decode body).feed (request q) =
    .invoke q fun o => .sendAll (reply q o) .loop

/-- The state of a session. `current` is the call that holds the lock, with its caller and
what is left of its program; the last three lists record what happened, in order. -/
structure Session (M Q R : Type) (O : Q → Type) where
  current : Option (Nat × Q × Client M R) := none
  toServer : List M := []
  toClient : List M := []
  server : Server M Q O := .loop
  started : List (Nat × Q) := []
  invoked : List (Σ q, O q) := []
  returned : List (Nat × Q × R) := []

inductive Action (Q : Type) (O : Q → Type)
  | begin (caller : Nat) (q : Q)
  | clientEncode
  | clientDecode
  | clientReturn
  | serverDecode
  | serverInvoke (outcome : ∀ q, O q)
  | serverEncode

namespace Protocol

variable (P : Protocol M Q R O)

def head : Server M Q O := .decode P.body

def unroll : Server M Q O → Server M Q O
  | .loop => P.head
  | sv => sv

def step (s : Session M Q R O) : Action Q O → Option (Session M Q R O)
  | .begin caller q =>
    match s.current with
    | none => some { s with
        current := some (caller, q, P.client q), started := s.started ++ [(caller, q)] }
    | some _ => none
  | .clientEncode =>
    match s.current with
    | some (caller, q, .encode v p) =>
      some { s with current := some (caller, q, p), toServer := s.toServer ++ [v] }
    | _ => none
  | .clientDecode =>
    match s.current, s.toClient with
    | some (caller, q, .decode k), v :: vs =>
      some { s with current := some (caller, q, k v), toClient := vs }
    | _, _ => none
  | .clientReturn =>
    match s.current with
    | some (caller, q, .ret r) =>
      some { s with current := none, returned := s.returned ++ [(caller, q, r)] }
    | _ => none
  | .serverDecode =>
    match P.unroll s.server, s.toServer with
    | .decode k, v :: vs => some { s with server := k v, toServer := vs }
    | _, _ => none
  | .serverInvoke outcome =>
    match P.unroll s.server with
    | .invoke q k =>
      some { s with server := k (outcome q), invoked := s.invoked ++ [⟨q, outcome q⟩] }
    | _ => none
  | .serverEncode =>
    match P.unroll s.server with
    | .encode v sv => some { s with server := sv, toClient := s.toClient ++ [v] }
    | _ => none

def Awaits (sv : Server M Q O) (q : Q) (rest : List M) : Prop :=
  ∃ read, P.request q = read ++ rest ∧ P.unroll sv = P.head.feed read

/-- The server has the calls `todo` before it, and the unread part of their requests is
`unread`. -/
def Behind (sv : Server M Q O) : List Q → List M → Prop
  | [], unread => sv = .loop ∧ unread = []
  | q :: todo, unread => ∃ rest, P.Awaits sv q rest ∧ unread = rest ++ todo.flatMap P.request

def OneWay (q : Q) : Prop := ∃ r, P.await q = .ret r

/-- Where the two sides are. A call that the server has not answered yet is the last of the
calls before the server, and the others before it are one-way; the part of its request that
is not sent yet continues the stream. -/
inductive Stage (s : Session M Q R O) : Prop
  | idle (todo : List Q) (current : s.current = none) (toClient : s.toClient = [])
      (oneWay : ∀ q ∈ todo, P.OneWay q) (behind : P.Behind s.server todo s.toServer)
      (calls : s.started.map (·.2) = s.invoked.map (·.1) ++ todo)
  | calling (caller : Nat) (q : Q) (unsent : List M) (todo : List Q)
      (current : s.current = some (caller, q, .sendAll unsent (P.await q)))
      (toClient : s.toClient = []) (oneWay : ∀ q ∈ todo, P.OneWay q)
      (behind : P.Behind s.server (todo ++ [q]) (s.toServer ++ unsent))
      (calls : s.started.map (·.2) = s.invoked.map (·.1) ++ (todo ++ [q]))
  | answering (caller : Nat) (q : Q) (o : O q) (p : Client M R) (unsent : List M)
      (current : s.current = some (caller, q, p)) (toServer : s.toServer = [])
      (server : s.server = .sendAll unsent .loop)
      (reads : p.feed (s.toClient ++ unsent) = .ret (P.result q o))
      (calls : s.started.map (·.2) = s.invoked.map (·.1))
      (last : s.invoked.getLast? = some ⟨q, o⟩)

def Answered (invoked : List (Σ q, O q)) (i : Nat) (q : Q) (r : R) : Prop :=
  (∃ o, invoked[i]? = some ⟨q, o⟩ ∧ r = P.result q o) ∨ P.await q = .ret r

structure Lockstep (s : Session M Q R O) : Prop where
  stage : P.Stage s
  calls : s.started = s.returned.map (fun c => (c.1, c.2.1)) ++
    s.current.toList.map fun c => (c.1, c.2.1)
  answers : ∀ (i caller : Nat) (q : Q) (r : R), s.returned[i]? = some (caller, q, r) →
    P.Answered s.invoked i q r

variable {P} {sv : Server M Q O} {q : Q} {todo : List Q} {rest unread : List M}

theorem awaits_loop (q : Q) : P.Awaits .loop q (P.request q) :=
  ⟨[], rfl, (Server.feed_nil P.head).symm⟩

theorem Awaits.feed (h : P.Awaits sv q rest) :
    (P.unroll sv).feed rest = .invoke q fun o => .sendAll (P.reply q o) .loop := by
  obtain ⟨read, hrequest, hsv⟩ := h
  rw [hsv, ← Server.feed_append, ← hrequest]
  exact P.body_request q

theorem Awaits.decode {k : M → Server M Q O} (h : P.Awaits sv q rest)
    (hsv : P.unroll sv = .decode k) : ∃ v rest', rest = v :: rest' ∧ P.Awaits (k v) q rest' := by
  have hfeed := h.feed
  rw [hsv] at hfeed
  cases rest with
  | nil => cases hfeed
  | cons v rest =>
    -- the server is inside the request, so this is not the end of its loop body
    have hne : k v ≠ .loop := by
      intro hloop
      change (k v).feed rest = _ at hfeed
      rw [hloop] at hfeed
      cases rest <;> cases hfeed
    have hunroll : P.unroll (k v) = k v := by
      cases hk : k v with
      | loop => exact absurd hk hne
      | _ => rfl
    obtain ⟨read, hrequest, hread⟩ := h
    refine ⟨v, rest, rfl, read ++ [v], by simp [hrequest], ?_⟩
    rw [Server.feed_append, ← hread, hsv, hunroll]
    exact (Server.feed_nil (k v)).symm

theorem Awaits.invoke {q' : Q} {k : O q' → Server M Q O} (h : P.Awaits sv q rest)
    (hsv : P.unroll sv = .invoke q' k) :
    rest = [] ∧ Server.invoke q' k = .invoke q fun o => .sendAll (P.reply q o) .loop := by
  have hfeed := h.feed
  rw [hsv] at hfeed
  cases rest with
  | nil => exact ⟨rfl, by simpa using hfeed⟩
  | cons v rest => cases hfeed

theorem Awaits.cases (h : P.Awaits sv q rest) :
    (∃ k, P.unroll sv = .decode k) ∨ ∃ k : O q → Server M Q O, P.unroll sv = .invoke q k := by
  have hfeed := h.feed
  cases rest with
  | nil => exact .inr ⟨_, by simpa using hfeed⟩
  | cons v rest =>
    cases hsv : P.unroll sv with
    | decode k => exact .inl ⟨k, rfl⟩
    | _ =>
      rw [hsv] at hfeed
      cases hfeed

theorem behind_loop (todo : List Q) : P.Behind .loop todo (todo.flatMap P.request) := by
  cases todo with
  | nil => exact ⟨rfl, rfl⟩
  | cons q todo => exact ⟨P.request q, awaits_loop q, List.flatMap_cons⟩

theorem Behind.append (h : P.Behind sv todo unread) (q : Q) :
    P.Behind sv (todo ++ [q]) (unread ++ P.request q) := by
  cases todo with
  | nil =>
    obtain ⟨rfl, rfl⟩ := h
    exact ⟨P.request q, awaits_loop q, by simp⟩
  | cons q' todo =>
    obtain ⟨rest, hrest, rfl⟩ := h
    exact ⟨rest, hrest, by simp⟩

theorem Behind.decode {k : M → Server M Q O} {v : M} (h : P.Behind sv todo (v :: unread))
    (hsv : P.unroll sv = .decode k) : P.Behind (k v) todo unread := by
  cases todo with
  | nil => cases h.2
  | cons q todo =>
    obtain ⟨rest, hrest, hunread⟩ := h
    obtain ⟨v', rest', rfl, hrest'⟩ := hrest.decode hsv
    obtain ⟨rfl, rfl⟩ := List.cons_eq_cons.mp hunread
    exact ⟨rest', hrest', rfl⟩

theorem Behind.invoke {k : O q → Server M Q O} (h : P.Behind sv todo unread)
    (hsv : P.unroll sv = .invoke q k) :
    ∃ todo', todo = q :: todo' ∧ unread = todo'.flatMap P.request ∧
      k = fun o => .sendAll (P.reply q o) .loop := by
  cases todo with
  | nil =>
    obtain ⟨rfl, -⟩ := h
    cases hsv
  | cons q' todo =>
    obtain ⟨rest, hrest, rfl⟩ := h
    obtain ⟨rfl, hinvoke⟩ := hrest.invoke hsv
    cases hinvoke
    exact ⟨todo, rfl, rfl, rfl⟩

theorem Behind.cases (h : P.Behind sv todo unread) :
    (∃ k, P.unroll sv = .decode k) ∨
      ∃ (q : Q) (k : O q → Server M Q O), P.unroll sv = .invoke q k := by
  cases todo with
  | nil =>
    obtain ⟨rfl, -⟩ := h
    exact .inl ⟨P.body, rfl⟩
  | cons q todo =>
    obtain ⟨rest, hrest, -⟩ := h
    exact hrest.cases.imp_right fun ⟨k, hk⟩ => ⟨q, k, hk⟩

theorem result_of_oneWay {r : R} (h : P.await q = .ret r) (o : O q) :
    P.reply q o = [] ∧ r = P.result q o := by
  have hreply := P.await_reply q o
  rw [h] at hreply
  rcases Client.of_feed_eq_ret hreply with ⟨hnil, hr⟩ | ⟨k, v, vs, -, hk, -⟩
  · exact ⟨hnil, by injection hr⟩
  · cases hk

variable {s t : Session M Q R O}

theorem Answered.append {invoked : List (Σ q, O q)} {i : Nat} {r : R}
    (h : P.Answered invoked i q r) (c : Σ q, O q) : P.Answered (invoked ++ [c]) i q r := by
  refine h.imp_left fun ⟨o, ho, hr⟩ => ⟨o, ?_, hr⟩
  rw [List.getElem?_append_left (List.getElem?_eq_some_iff.mp ho).1]
  exact ho

theorem Lockstep.begin (h : P.Lockstep s) {caller : Nat}
    (hstep : P.step s (.begin caller q) = some t) : P.Lockstep t := by
  simp only [step] at hstep
  split at hstep
  · rename_i hcurrent
    cases hstep
    cases h.stage with
    | idle todo _ htoClient honeWay hbehind hcalls =>
      refine ⟨.calling caller q (P.request q) todo ?_ htoClient honeWay (hbehind.append q) ?_, ?_,
        h.answers⟩
      · exact congrArg (fun p => some (caller, q, p)) (P.client_eq q)
      · simp [hcalls]
      · simp [h.calls, hcurrent]
    | calling caller q unsent todo hc => simp [hcurrent] at hc
    | answering caller q o p unsent hc => simp [hcurrent] at hc
  · cases hstep

theorem Lockstep.clientDecode (h : P.Lockstep s) (hstep : P.step s .clientDecode = some t) :
    P.Lockstep t := by
  simp only [step] at hstep
  split at hstep
  · rename_i caller q k v vs hcurrent htoClient
    cases hstep
    have hcalls : s.started = s.returned.map (fun c => (c.1, c.2.1)) ++ [(caller, q)] := by
      simpa [hcurrent] using h.calls
    refine ⟨?_, hcalls, h.answers⟩
    cases h.stage with
    | idle todo hc => simp [hcurrent] at hc
    | calling caller' q' unsent todo hc hnil =>
      rw [htoClient] at hnil
      cases hnil
    | answering caller' q' o p unsent hc htoServer hserver hreads hcalls hlast =>
      rw [hcurrent] at hc
      cases hc
      rw [htoClient] at hreads
      exact .answering caller q o (k v) unsent rfl htoServer hserver hreads hcalls hlast
  · cases hstep

theorem Lockstep.clientReturn (h : P.Lockstep s) (hstep : P.step s .clientReturn = some t) :
    P.Lockstep t := by
  simp only [step] at hstep
  split at hstep
  · rename_i caller q r hcurrent
    cases hstep
    have hstarted : s.started = s.returned.map (fun c => (c.1, c.2.1)) ++ [(caller, q)] := by
      simpa [hcurrent] using h.calls
    have hlen : s.returned.length + 1 = s.started.length := by simp [hstarted]
    -- the new answer is the only one to check
    suffices hnew : P.Stage { s with current := none, returned := s.returned ++ [(caller, q, r)] } ∧
        P.Answered s.invoked s.returned.length q r by
      refine ⟨hnew.1, by simp [hstarted], fun i caller' q' r' hi => ?_⟩
      rcases Nat.lt_or_ge i s.returned.length with hlt | hge
      · apply h.answers i caller' q' r'
        rwa [List.getElem?_append_left hlt] at hi
      · rw [List.getElem?_append_right hge, List.getElem?_singleton] at hi
        split_ifs at hi with hzero
        cases hi
        have : i = s.returned.length := by omega
        rw [this]
        exact hnew.2
    cases h.stage with
    | idle todo hc => simp [hcurrent] at hc
    | calling caller' q' unsent todo hc htoClient honeWay hbehind hcalls =>
      rw [hcurrent] at hc
      simp only [Option.some.injEq, Prod.mk.injEq] at hc
      obtain ⟨rfl, rfl, hp⟩ := hc
      cases unsent with
      | cons v unsent => cases hp
      | nil =>
        have hawait : P.await q = .ret r := hp.symm
        refine ⟨.idle (todo ++ [q]) rfl htoClient ?_ (by simpa using hbehind) hcalls, .inr hawait⟩
        exact List.forall_mem_append.mpr ⟨honeWay, List.forall_mem_singleton.mpr ⟨r, hawait⟩⟩
    | answering caller' q' o p unsent hc htoServer hserver hreads hcalls hlast =>
      rw [hcurrent] at hc
      cases hc
      rcases Client.of_feed_eq_ret hreads with ⟨hnil, hr⟩ | ⟨k, v, vs, -, hp, -⟩
      · obtain ⟨htoClient, rfl⟩ := List.append_eq_nil_iff.mp hnil
        refine ⟨.idle [] rfl htoClient (fun _ hq => absurd hq List.not_mem_nil) ⟨hserver, htoServer⟩
          (by simpa using hcalls), .inl ⟨o, ?_, by injection hr⟩⟩
        have hinvoked : s.invoked.length = s.returned.length + 1 := by
          simpa [hlen] using (congrArg List.length hcalls).symm
        rw [List.getLast?_eq_getElem?, hinvoked] at hlast
        exact hlast
      · cases hp
  · cases hstep

theorem Lockstep.serverDecode (h : P.Lockstep s) (hstep : P.step s .serverDecode = some t) :
    P.Lockstep t := by
  simp only [step] at hstep
  split at hstep
  · rename_i k v vs hserver htoServer
    cases hstep
    refine ⟨?_, h.calls, h.answers⟩
    cases h.stage with
    | idle todo hc htoClient honeWay hbehind hcalls =>
      rw [htoServer] at hbehind
      exact .idle todo hc htoClient honeWay (hbehind.decode hserver) hcalls
    | calling caller q unsent todo hc htoClient honeWay hbehind hcalls =>
      rw [htoServer] at hbehind
      exact .calling caller q unsent todo hc htoClient honeWay (hbehind.decode hserver) hcalls
    | answering caller q o p unsent hc hnil =>
      rw [htoServer] at hnil
      cases hnil
  · cases hstep

theorem Lockstep.serverEncode (h : P.Lockstep s) (hstep : P.step s .serverEncode = some t) :
    P.Lockstep t := by
  simp only [step] at hstep
  split at hstep
  · rename_i v sv hserver
    cases hstep
    refine ⟨?_, h.calls, h.answers⟩
    have hbusy : ∀ {todo unread}, ¬ P.Behind s.server todo unread := fun hbehind => by
      rcases hbehind.cases with ⟨k, hk⟩ | ⟨q, k, hk⟩
      · rw [hserver] at hk
        cases hk
      · rw [hserver] at hk
        cases hk
    cases h.stage with
    | idle todo hc htoClient honeWay hbehind hcalls => exact absurd hbehind hbusy
    | calling caller q unsent todo hc htoClient honeWay hbehind hcalls => exact absurd hbehind hbusy
    | answering caller q o p unsent hc htoServer hsend hreads hcalls hlast =>
      rw [hsend] at hserver
      cases unsent with
      | nil => cases hserver
      | cons v' unsent =>
        cases hserver
        refine .answering caller q o p unsent hc htoServer rfl ?_ hcalls hlast
        simpa using hreads
  · cases hstep

theorem Lockstep.serverInvoke (h : P.Lockstep s) {outcome : ∀ q, O q}
    (hstep : P.step s (.serverInvoke outcome) = some t) : P.Lockstep t := by
  simp only [step] at hstep
  split at hstep
  · rename_i q k hserver
    cases hstep
    refine ⟨?_, h.calls, fun i caller q' r hi => (h.answers i caller q' r hi).append _⟩
    cases h.stage with
    | idle todo hc htoClient honeWay hbehind hcalls =>
      obtain ⟨todo, rfl, hunread, rfl⟩ := hbehind.invoke hserver
      obtain ⟨r, hr⟩ := honeWay q List.mem_cons_self
      refine .idle todo hc htoClient (fun q' hq' => honeWay q' (List.mem_cons_of_mem q hq')) ?_ ?_
      · change P.Behind (.sendAll (P.reply q (outcome q)) .loop) todo s.toServer
        rw [(result_of_oneWay hr (outcome q)).1, hunread]
        exact behind_loop todo
      · simp [hcalls]
    | calling caller q' unsent todo hc htoClient honeWay hbehind hcalls =>
      obtain ⟨todo', htodo, hunread, rfl⟩ := hbehind.invoke hserver
      cases todo with
      | nil =>
        obtain ⟨rfl, rfl⟩ := List.cons_eq_cons.mp htodo
        obtain ⟨htoServer, rfl⟩ := List.append_eq_nil_iff.mp hunread
        refine .answering caller q' (outcome q') (P.await q') (P.reply q' (outcome q')) hc htoServer
          rfl ?_ (by simp [hcalls]) (by simp)
        change (P.await q').feed (s.toClient ++ _) = _
        rw [htoClient]
        exact P.await_reply q' (outcome q')
      | cons q₁ todo =>
        obtain ⟨rfl, rfl⟩ := List.cons_eq_cons.mp htodo
        obtain ⟨r, hr⟩ := honeWay q₁ List.mem_cons_self
        refine .calling caller q' unsent todo hc htoClient
          (fun q hq => honeWay q (List.mem_cons_of_mem q₁ hq)) ?_ (by simp [hcalls])
        change P.Behind (.sendAll (P.reply q₁ (outcome q₁)) .loop) _ _
        rw [(result_of_oneWay hr (outcome q₁)).1, hunread]
        exact behind_loop (todo ++ [q'])
    | answering caller q' o p unsent hc htoServer hsend hreads hcalls hlast =>
      rw [hsend] at hserver
      cases unsent <;> cases hserver
  · cases hstep

theorem lockstep_init : P.Lockstep {} :=
  ⟨.idle [] rfl rfl (fun _ hq => absurd hq List.not_mem_nil) ⟨rfl, rfl⟩ rfl, rfl,
    fun _ _ _ _ h => nomatch h⟩

section Moves

variable [∀ q, Nonempty (O q)]

theorem await_cases (q : Q) : P.OneWay q ∨ ∃ k, P.await q = .decode k := by
  obtain ⟨o⟩ : Nonempty (O q) := inferInstance
  rcases Client.of_feed_eq_ret (P.await_reply q o) with ⟨-, hr⟩ | ⟨k, v, vs, -, hk, -⟩
  · exact .inl ⟨_, hr⟩
  · exact .inr ⟨k, hk⟩

theorem Lockstep.clientEncode (h : P.Lockstep s) (hstep : P.step s .clientEncode = some t) :
    P.Lockstep t := by
  simp only [step] at hstep
  split at hstep
  · rename_i caller q v p hcurrent
    cases hstep
    have hcalls : s.started = s.returned.map (fun c => (c.1, c.2.1)) ++ [(caller, q)] := by
      simpa [hcurrent] using h.calls
    refine ⟨?_, hcalls, h.answers⟩
    cases h.stage with
    | idle todo hc => simp [hcurrent] at hc
    | calling caller' q' unsent todo hc htoClient honeWay hbehind hcalls =>
      rw [hcurrent] at hc
      simp only [Option.some.injEq, Prod.mk.injEq] at hc
      obtain ⟨rfl, rfl, hp⟩ := hc
      cases unsent with
      | nil =>
        change _ = P.await q at hp
        rcases P.await_cases q with ⟨r, hr⟩ | ⟨k, hk⟩
        · rw [hr] at hp
          cases hp
        · rw [hk] at hp
          cases hp
      | cons v' unsent =>
        cases hp
        refine .calling caller q unsent todo rfl htoClient honeWay ?_ hcalls
        simpa using hbehind
    | answering caller' q' o p' unsent hc htoServer hserver hreads hcalls hlast =>
      rw [hcurrent] at hc
      cases hc
      rcases Client.of_feed_eq_ret hreads with ⟨-, hp⟩ | ⟨k, v, vs, -, hp, -⟩
      · cases hp
      · cases hp
  · cases hstep

theorem lockstep_step (s : Session M Q R O) (a : Action Q O) (t : Session M Q R O)
    (h : P.Lockstep s) (hstep : P.step s a = some t) : P.Lockstep t := by
  cases a with
  | begin caller q => exact h.begin hstep
  | clientEncode => exact h.clientEncode hstep
  | clientDecode => exact h.clientDecode hstep
  | clientReturn => exact h.clientReturn hstep
  | serverDecode => exact h.serverDecode hstep
  | serverInvoke outcome => exact h.serverInvoke hstep
  | serverEncode => exact h.serverEncode hstep

theorem lockstep {as : List (Action Q O)} (h : exec P.step {} as = some s) : P.Lockstep s :=
  invariant lockstep_step lockstep_init h

theorem Lockstep.no_failure (h : P.Lockstep s) :
    s.server ≠ .stop ∧ ∀ caller q p, s.current = some (caller, q, p) → p ≠ .fail := by
  have hserver : ∀ {todo unread}, P.Behind s.server todo unread → s.server ≠ .stop := by
    intro todo unread hbehind hstop
    rw [hstop] at hbehind
    rcases hbehind.cases with ⟨k, hk⟩ | ⟨q, k, hk⟩
    · cases hk
    · cases hk
  cases h.stage with
  | idle todo hc htoClient honeWay hbehind hcalls =>
    exact ⟨hserver hbehind, fun caller q p hp => by simp [hc] at hp⟩
  | calling caller q unsent todo hc htoClient honeWay hbehind hcalls =>
    refine ⟨hserver hbehind, fun caller' q' p hp hfail => ?_⟩
    rw [hc, hfail] at hp
    cases unsent with
    | cons v unsent => cases hp
    | nil =>
      have hawait : P.await q = .fail := by
        injection hp with hp
        exact congrArg (·.2.2) hp
      rcases P.await_cases q with ⟨r, hr⟩ | ⟨k, hk⟩
      · rw [hr] at hawait
        cases hawait
      · rw [hk] at hawait
        cases hawait
  | answering caller q o p unsent hc htoServer hsend hreads hcalls hlast =>
    constructor
    · rw [hsend]
      cases unsent <;> exact fun hstop => nomatch hstop
    · intro caller' q' p' hp hfail
      rw [hc, hfail] at hp
      cases hp
      simp at hreads

structure Quiescent (s : Session M Q R O) : Prop where
  current : s.current = none
  toServer : s.toServer = []
  toClient : s.toClient = []
  server : s.server = .loop

def Action.isBegin : Action Q O → Bool
  | .begin .. => true
  | _ => false

theorem Behind.enabled (h : P.Behind s.server (q :: todo) s.toServer) :
    ∃ a, Action.isBegin a = false ∧ (P.step s a).isSome := by
  obtain ⟨outcome⟩ : Nonempty (∀ q, O q) := inferInstance
  obtain ⟨rest, hrest, hunread⟩ := h
  rcases hrest.cases with ⟨k, hk⟩ | ⟨k, hk⟩
  · obtain ⟨v, rest', rfl, -⟩ := hrest.decode hk
    exact ⟨.serverDecode, rfl, by simp [step, hk, hunread]⟩
  · exact ⟨.serverInvoke outcome, rfl, by simp [step, hk]⟩

/-- As long as anything is left to do, one of the sides can go on. -/
theorem Lockstep.progress (h : P.Lockstep s) :
    Quiescent s ∨ ∃ a, Action.isBegin a = false ∧ (P.step s a).isSome := by
  cases h.stage with
  | idle todo hc htoClient honeWay hbehind hcalls =>
    cases todo with
    | nil => exact .inl ⟨hc, hbehind.2, htoClient, hbehind.1⟩
    | cons q todo => exact .inr hbehind.enabled
  | calling caller q unsent todo hc htoClient honeWay hbehind hcalls =>
    right
    cases unsent with
    | cons v unsent => exact ⟨.clientEncode, rfl, by simp [step, hc, Client.sendAll]⟩
    | nil =>
      rw [List.append_nil] at hbehind
      cases todo with
      | nil => exact hbehind.enabled
      | cons q' todo => exact hbehind.enabled
  | answering caller q o p unsent hc htoServer hsend hreads hcalls hlast =>
    right
    cases unsent with
    | cons v unsent => exact ⟨.serverEncode, rfl, by simp [step, hsend, Server.sendAll, unroll]⟩
    | nil =>
      rw [List.append_nil] at hreads
      rcases Client.of_feed_eq_ret hreads with ⟨-, hp⟩ | ⟨k, v, vs, htoClient, hp, -⟩
      · exact ⟨.clientReturn, rfl, by simp [step, hc, hp]⟩
      · exact ⟨.clientDecode, rfl, by simp [step, hc, hp, htoClient]⟩

end Moves

end Protocol

end Systems.Rpc
