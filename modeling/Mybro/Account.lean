import Mybro.Messages

/-!
# The account of a request

`Account` is what the effects of one request add up to: whether it was admitted, what its last
upstream call came to, whether a reply's body is still unread, which records it stored. Two facts
about every run of a handler, whoever answers it:

* `Permitted`: the gate is asked once, upstream is called only after admission, and the handler
  never waits after it has stored its record, nor for anything but the body while a reply is unread;
* `Answered`: what the account is when the handler returns, one case for each way to return.
-/

namespace Mybro

open Value Prog

/-- What the effects of a request add up to. -/
structure Account where
  authConfig : Option Config := none
  admitted : Bool := false
  last : Option (Except String Reply) := none
  unread : Bool := false
  records : List RequestRecord := []

namespace Account

/-- The account after one more answer. -/
def add (a : Account) : (e : Eff) → Answer e → Account
  -- the first configuration is the one the credentials are checked against
  | .config, cfg => { a with authConfig := a.authConfig.or (some cfg) }
  | .gateAcquire, admitted => { a with admitted := admitted }
  | .send _, .ok reply => { a with last := some (.ok reply), unread := true }
  | .send _, .error err => { a with last := some (.error err), unread := false }
  | .readBody, _ => { a with unread := false }
  | .record r, _ => { a with records := a.records ++ [r] }
  | _, _ => a

/-- The effects a handler may perform. -/
structure Permitted (a : Account) (e : Eff) : Prop where
  gate : e = .gateAcquire → a.admitted = false
  upstream : e.IsUpstream → a.admitted = true
  records : e.Suspends → a.records = []
  unread : e.Suspends → a.unread = true → e = .readBody

/-- The request has been admitted, has nothing to read and has stored nothing. -/
structure Ready (a : Account) : Prop where
  auth : a.authConfig ≠ none
  admitted : a.admitted = true
  unread : a.unread = false
  records : a.records = []

end Account

open Account

/-- **How a handler returns**, with the account at that moment: refused before the body is looked
at, rejected by an error object before the upstream call, upstream unreachable, the reply relayed
with or without a record, or the reply relayed as a stream. -/
inductive Answered (api : ApiFormat) (req : Request) : Account → Response → Prop
  | refused (a : Account) (resp : Response) (cfg : Config) (b : List UInt8)
      (auth : a.authConfig = some cfg) (why : checkAuth cfg req.headers = false ∨ req.body = none)
      (last : a.last = none) (unread : a.unread = false) (records : a.records = [])
      (body : resp.body = .bytes b) (given : resp.given = none) : Answered api req a resp
  | rejected (a : Account) (resp : Response) (cfg : Config) (b : List UInt8) (g : ℕ)
      (auth : a.authConfig = some cfg) (authorized : checkAuth cfg req.headers = true)
      (read : req.body ≠ none) (last : a.last = none) (unread : a.unread = false)
      (records : a.records = []) (body : resp.body = .bytes b) (given : resp.given = some g)
      (given_mem : g = 400 ∨ g = 503) (status : resp.status = 200) : Answered api req a resp
  | unreachable (a : Account) (resp : Response) (err : String) (r : RequestRecord) (b : List UInt8)
      (last : a.last = some (.error err)) (unread : a.unread = false) (records : a.records = [r])
      (body : resp.body = .bytes b) (given : resp.given = some 502) (status : resp.status = 200) :
      Answered api req a resp
  | relayed (a : Account) (resp : Response) (reply : Reply) (r : RequestRecord) (b : List UInt8)
      (last : a.last = some (.ok reply)) (unread : a.unread = false)
      (noStream : reply.isEventStream = false)
      (noted : api = .anthropic → isSuccess reply.status = true ∨ 400 ≤ reply.status)
      (records : a.records = [r]) (body : resp.body = .bytes b) (given : resp.given = none)
      (status : r.status = resp.status) : Answered api req a resp
  | passedOn (a : Account) (resp : Response) (reply : Reply) (b : List UInt8)
      (format : api = .anthropic) (last : a.last = some (.ok reply)) (unread : a.unread = false)
      (noSuccess : isSuccess reply.status = false) (noError : ¬ 400 ≤ reply.status)
      (records : a.records = []) (body : resp.body = .bytes b) (given : resp.given = none) :
      Answered api req a resp
  | streamed (a : Account) (resp : Response) (reply : Reply) (p : Pipe)
      (last : a.last = some (.ok reply)) (stream : reply.isEventStream = true)
      (records : a.records = []) (body : resp.body = .stream p) (given : resp.given = none)
      (recorded : p.record.status = 200)
      (status : resp.status = match api with | .openAI => 200 | .anthropic => reply.status) :
      Answered api req a resp

/-! ### Parts that leave the account alone -/

/-- The effect changes no account that has seen a configuration. -/
def Silent : Eff → Prop
  | .gateAcquire | .send _ | .readBody | .record _ => False
  | _ => True

theorem permitted_of_silent {a : Account} (ha : a.Ready) (e : Eff) (he : Silent e) :
    a.Permitted e ∧ ∀ r, a.add e r = a := by
  refine ⟨⟨?_, fun _ => ha.admitted, fun _ => ha.records, fun _ h => ?_⟩, fun r => ?_⟩
  · rintro rfl
    exact he.elim
  · rw [ha.unread] at h
    cases h
  · cases e with
    | config =>
      obtain ⟨cfg, hcfg⟩ := Option.ne_none_iff_exists'.1 ha.auth
      simp only [add, hcfg, Option.some_or]
      rw [← hcfg]
    | gateAcquire => exact he.elim
    | send call => exact he.elim
    | readBody => exact he.elim
    | record r => exact he.elim
    | _ => rfl

/-- The effects of the preparation of a payload: they read the settings, describe images, log,
panic. -/
def Prepares : Eff → Prop
  | .config | .catalog | .analyzeImages _ _ _ | .info _ | .abort _ => True
  | _ => False

theorem silent_of_prepares {α : Type} {p : Handler α} (h : Ensures Prepares (fun _ => True) p) :
    Ensures Silent (fun _ => True) p := by
  refine h.mono (fun e he => ?_) fun _ _ => trivial
  cases e <;> trivial

theorem prepares_orPanic {α : Type} (site : Panic) (o : Option α) :
    Ensures Prepares (fun _ => True) (orPanic site o) := by
  cases o with
  | none => exact ⟨trivial, nofun⟩
  | some a => trivial

theorem prepares_logFirstPrompt (c : Prop) [Decidable c] (payload : Value) (sessNum : UInt64) :
    Ensures Prepares (fun _ => True) (doIf c (logFirstPrompt payload sessNum)) := by
  unfold doIf
  split_ifs
  · exact ensures_bind (prepares_orPanic _ _) fun t _ => ⟨trivial, fun _ => trivial⟩
  · trivial

/-- The effects of choosing a key. -/
def Selects : Eff → Prop
  | .touch _ | .track _ _ | .acquireKey _ | .keypoolTotal => True
  | e => Prepares e

theorem selects_of_prepares (e : Eff) (he : Prepares e) : Selects e := by
  cases e <;> trivial

theorem silent_of_selects {α : Type} {p : Handler α} (h : Ensures Selects (fun _ => True) p) :
    Ensures Silent (fun _ => True) p := by
  refine h.mono (fun e he => ?_) fun _ _ => trivial
  cases e <;> trivial

theorem selects_selectKey (env : Env) (payload : Value) :
    Ensures Selects (fun _ => True) (selectKey env payload) := by
  refine ⟨trivial, fun touched => ⟨trivial, fun slot => ?_⟩⟩
  cases slot with
  | none => trivial
  | some slot =>
    refine ⟨trivial, fun session => ?_⟩
    show Ensures _ _ (doIf _ _ >>= _)
    have hlog := (prepares_logFirstPrompt (session.isNew = true) payload session.sessNum).mono
      selects_of_prepares fun _ h => h
    exact ensures_bind hlog fun _ _ => trivial

theorem prepares_visionStep (payload : Value) (resolved : String) (cfg : Config) (key : String) :
    Ensures Prepares (fun _ => True) (visionStep payload resolved cfg key) := by
  refine ⟨trivial, fun catalog => ?_⟩
  show Ensures _ _ (if _ then _ else _)
  split_ifs
  · refine ⟨trivial, fun catalog => ?_⟩
    show Ensures _ _ (if _ then _ else _)
    split_ifs
    · trivial
    · exact ⟨trivial, fun _ => trivial⟩
    · trivial
  · trivial

theorem prepares_resolveModel (cfg : Config) (payload : Value) :
    Ensures Prepares (fun _ => True) (resolveModel cfg payload) := by
  refine ⟨trivial, fun catalog => ?_⟩
  show Ensures _ _ (orPanic .index _ >>= _)
  exact ensures_bind (prepares_orPanic _ _) fun _ _ => trivial

theorem prepares_chatPayload (payload : Value) (slot : KeySlot) (stream : Bool) :
    Ensures Prepares (fun _ => True) (chatPayload payload slot stream) := by
  refine ⟨trivial, fun cfg => ?_⟩
  show Ensures _ _ (resolveModel cfg _ >>= _)
  refine ensures_bind (prepares_resolveModel cfg _) fun p _ =>
    ⟨trivial, fun _ => ⟨trivial, fun _ => ?_⟩⟩
  show Ensures _ _ (orPanic .index _ >>= _)
  refine ensures_bind (prepares_orPanic _ _) fun payload' _ => ?_
  exact ensures_bind (prepares_visionStep _ _ _ _) fun _ _ => trivial

theorem prepares_messagesPayload (payload : Value) (slot : KeySlot) :
    Ensures Prepares (fun _ => True) (messagesPayload payload slot) := by
  refine ⟨trivial, fun cfg => ?_⟩
  show Ensures _ _ (resolveModel cfg _ >>= _)
  refine ensures_bind (prepares_resolveModel cfg _) fun p _ => ?_
  exact ensures_bind (prepares_visionStep _ _ _ _) fun _ _ => trivial

theorem selects_rotate (attempt : ℕ) (slot : KeySlot) :
    Ensures Selects (fun _ => True) (rotate attempt slot) := by
  unfold rotate
  split_ifs
  · refine ⟨trivial, fun total => ?_⟩
    show Ensures _ _ (if _ then _ else _)
    split_ifs
    · exact ⟨trivial, fun _ => trivial⟩
    · trivial
  · trivial

/-! ### Rules for the other parts -/

/-- An effect that waits for nothing and leaves every account alone. -/
def Immediate (e : Eff) : Prop := Silent e ∧ ¬ e.Suspends ∧ ¬ e.IsUpstream ∧ e ≠ .config

theorem permitted_of_immediate {a : Account} {e : Eff} (he : Immediate e) :
    a.Permitted e ∧ ∀ r, a.add e r = a := by
  obtain ⟨hsilent, hsus, hup, hcfg⟩ := he
  refine ⟨⟨?_, fun h => absurd h hup, fun h => absurd h hsus, fun h => absurd h hsus⟩, fun r => ?_⟩
  · rintro rfl
    exact hsilent.elim
  · cases e with
    | config => exact absurd rfl hcfg
    | gateAcquire => exact hsilent.elim
    | send call => exact hsilent.elim
    | readBody => exact hsilent.elim
    | record r => exact hsilent.elim
    | _ => rfl

theorem immediate_doIf {c : Prop} [Decidable c] {p : Handler Unit}
    (h : Ensures Immediate (fun _ => True) p) : Ensures Immediate (fun _ => True) (doIf c p) := by
  unfold doIf
  split_ifs
  · exact h
  · trivial

/-- An effect the rules below can see to be immediate. -/
theorem immediate_perform {e : Eff} (h : Immediate e) :
    Ensures Immediate (fun _ => True) (perform e) := ⟨h, fun _ => trivial⟩

theorem immediate_logUpstreamError (env : Env) (stage url : String) (attempt : ℕ) (sessNum : UInt64)
    (slotName : String) (status : ℕ) (errorBody : String) :
    Ensures Immediate (fun _ => True)
      (logUpstreamError env stage url attempt sessNum slotName status errorBody) :=
  ⟨⟨trivial, nofun, nofun, nofun⟩, fun _ => ⟨⟨trivial, nofun, nofun, nofun⟩, fun _ => trivial⟩⟩

section Rules

variable {α β : Type} {a : Account} {Q : Account → α → Prop}

/-- The rule for a part whose effects are all immediate. -/
theorem sat_part {P : β → Prop} {p : Handler β} {f : β → Handler α} (hp : Ensures Immediate P p)
    (h : ∀ b, P b → Sat add Permitted Q (f b) a) : Sat add Permitted Q (p >>= f) a :=
  sat_bind_of_ensures (fun _ he => permitted_of_immediate he) hp h

/-- The rule for a part whose effects are all silent, on a ready account. -/
theorem sat_ready {p : Handler β} {f : β → Handler α} (ha : a.Ready)
    (hp : Ensures Silent (fun _ => True) p) (h : ∀ b, Sat add Permitted Q (f b) a) :
    Sat add Permitted Q (p >>= f) a :=
  sat_bind_of_ensures (fun e he => permitted_of_silent ha e he) hp fun b _ => h b

theorem sat_recordStat {start : ℕ} {ttftMs : Option UInt64} {status : ℕ}
    {model pipeline keyName : String} {usage : Usage} {error : Option String}
    {f : Unit → Handler α} (hrec : a.records = [])
    (h : ∀ r : RequestRecord, r.status = status →
      Sat add Permitted Q (f ()) { a with records := [r] }) :
    Sat add Permitted Q
      (recordStat start ttftMs status model pipeline keyName usage error >>= f) a := by
  refine ⟨⟨nofun, nofun, nofun, nofun⟩, fun tsMs => ⟨⟨nofun, nofun, nofun, nofun⟩, fun now => ?_⟩⟩
  refine ⟨⟨nofun, nofun, nofun, nofun⟩, fun _ => ?_⟩
  show Sat add Permitted Q (f ()) { a with records := a.records ++ [_] }
  rw [hrec]
  exact h _ rfl

theorem sat_readBodyOrEmpty {f : List UInt8 → Handler α} (ha : a.records = [])
    (h : ∀ b, Sat add Permitted Q (f b) { a with unread := false }) :
    Sat add Permitted Q (readBodyOrEmpty >>= f) a :=
  ⟨⟨nofun, nofun, fun _ => ha, fun _ _ => rfl⟩, fun _ => h _⟩

theorem sat_readErrorBody {f : String → Handler α} (ha : a.records = [])
    (h : ∀ s, Sat add Permitted Q (f s) { a with unread := false }) :
    Sat add Permitted Q (readErrorBody >>= f) a :=
  ⟨⟨nofun, nofun, fun _ => ha, fun _ _ => rfl⟩, fun _ => h _⟩

end Rules

/-- The record prepared for a stream has status 200. -/
theorem immediate_streamRecord (model pipeline keyName : String) :
    Ensures Immediate (fun r : RequestRecord => r.status = 200)
      (streamRecord model pipeline keyName) :=
  ⟨⟨trivial, nofun, nofun, nofun⟩, fun _ => rfl⟩

/-! ### The OpenAI handler -/

section Handlers

variable {req : Request} {a : Account}

theorem sat_chatSuccess (c : ChatCall) (slot : KeySlot) (upstreamStart : ℕ) {reply : Reply}
    (hs : isSuccess reply.status = true) (hlast : a.last = some (.ok reply))
    (hrec : a.records = []) :
    Sat add Permitted (Answered .openAI req) (chatSuccess c slot upstreamStart reply) a := by
  refine sat_part (immediate_perform ⟨trivial, nofun, nofun, nofun⟩) fun _ _ => ?_
  by_cases hsse : reply.headers.isSse = true
  · rw [if_pos hsse]
    refine sat_part (immediate_streamRecord _ _ _) fun record hstatus => ?_
    have hstream : reply.isEventStream = true := by simp [Reply.isEventStream, hs, hsse]
    exact .streamed _ _ reply _ hlast hstream hrec rfl rfl hstatus rfl
  · rw [if_neg hsse]
    have hno : reply.isEventStream = false := by simp [Reply.isEventStream, hsse]
    refine sat_readBodyOrEmpty hrec fun body => ?_
    refine sat_part (immediate_perform ⟨trivial, nofun, nofun, nofun⟩) fun now _ => ?_
    refine sat_recordStat hrec fun r hr => ?_
    show Answered _ _ _ (if c.stream then _ else _)
    split_ifs
    · exact .relayed _ _ reply r _ hlast rfl hno nofun rfl rfl rfl hr
    · exact .relayed _ _ reply r _ hlast rfl hno nofun rfl rfl rfl hr

theorem sat_chatOther (c : ChatCall) (slot : KeySlot) {reply : Reply}
    (hs : isSuccess reply.status = false) (hlast : a.last = some (.ok reply))
    (hrec : a.records = []) :
    Sat add Permitted (Answered .openAI req) (chatOther c slot reply) a := by
  have hno : reply.isEventStream = false := by simp [Reply.isEventStream, hs]
  refine sat_part (immediate_doIf (immediate_perform ⟨trivial, nofun, nofun, nofun⟩)) fun _ _ => ?_
  refine sat_readBodyOrEmpty hrec fun body => sat_recordStat hrec fun r hr => ?_
  exact .relayed _ _ reply r _ hlast rfl hno nofun rfl rfl rfl hr

theorem sat_chatExhausted (c : ChatCall) (slot : KeySlot) (errorBody : String) {reply : Reply}
    (hs : isSuccess reply.status = false) (hlast : a.last = some (.ok reply))
    (hunread : a.unread = false) (hrec : a.records = []) :
    Sat add Permitted (Answered .openAI req) (chatExhausted c slot reply.status errorBody) a := by
  have hno : reply.isEventStream = false := by simp [Reply.isEventStream, hs]
  refine sat_part (immediate_doIf (immediate_perform ⟨trivial, nofun, nofun, nofun⟩)) fun _ _ => ?_
  refine sat_recordStat hrec fun r hr => ?_
  exact .relayed _ _ reply r _ hlast hunread hno nofun rfl rfl rfl hr

theorem sat_chatUnreachable (c : ChatCall) (slot : KeySlot) {err : String}
    (hlast : a.last = some (.error err)) (hunread : a.unread = false) (hrec : a.records = []) :
    Sat add Permitted (Answered .openAI req) (chatUnreachable c slot err) a := by
  refine sat_recordStat hrec fun r hr => ?_
  exact .unreachable _ _ err r _ hlast hunread rfl rfl rfl rfl

/-- A ready account stays ready when a call comes to nothing that is left to read. -/
theorem Account.Ready.called (ha : a.Ready) (result : Except String Reply) :
    ({ a with last := some result, unread := false } : Account).Ready :=
  ⟨ha.auth, ha.admitted, rfl, ha.records⟩

/-- A retryable failure, given what the next attempt does. -/
theorem sat_chatFailed (c : ChatCall) (attempt : ℕ) (slot : KeySlot) (status : ℕ)
    (errorBody : String)
    {last again : Handler Response} (ha : a.Ready) (result : Except String Reply)
    (hlast : Sat add Permitted (Answered .openAI req) last
      { a with last := some result, unread := false })
    (hagain : attempt ≠ maxRetries → ∀ a : Account, a.Ready →
      Sat add Permitted (Answered .openAI req) again a) :
    Sat add Permitted (Answered .openAI req) (chatFailed c attempt slot status errorBody last again)
      { a with last := some result, unread := false } := by
  refine sat_part (immediate_perform ⟨trivial, nofun, nofun, nofun⟩) fun _ _ => ?_
  refine sat_part (immediate_logUpstreamError _ _ _ _ _ _ _ _) fun _ _ => ?_
  by_cases hmax : attempt = maxRetries
  · rw [if_pos hmax]
    exact hlast
  · rw [if_neg hmax]
    have hcalled := ha.called result
    refine sat_ready hcalled (p := perform _) ⟨trivial, fun _ => trivial⟩ fun _ => ?_
    exact hagain hmax _ hcalled

/-- **The rule for the result of a call**: what holds of each way to go on holds of what an attempt
does with the result. -/
theorem chatResult_rule {S : Handler Response → Prop} {c : ChatCall} {attempt : ℕ} {slot : KeySlot}
    {upstreamStart : ℕ} {again : Handler Response} {result : Except String Reply}
    (hsuccess : ∀ reply, result = .ok reply → isSuccess reply.status = true →
      S (chatSuccess c slot upstreamStart reply))
    (hretried : ∀ reply, result = .ok reply → isSuccess reply.status = false →
      (reply.status = 500 ∨ reply.status = 503) → S (readErrorBody >>= fun errorBody =>
        chatFailed c attempt slot reply.status errorBody
          (chatExhausted c slot reply.status errorBody) again))
    (hother : ∀ reply, result = .ok reply → isSuccess reply.status = false →
      ¬ (reply.status = 500 ∨ reply.status = 503) → S (chatOther c slot reply))
    (herror : ∀ err, result = .error err →
      S (chatFailed c attempt slot 502 err (chatUnreachable c slot err) again)) :
    S (chatResult c attempt slot upstreamStart again result) := by
  cases result with
  | ok reply =>
    show S (if isSuccess reply.status = true then _ else _)
    by_cases hs : isSuccess reply.status = true
    · rw [if_pos hs]
      exact hsuccess reply rfl hs
    rw [if_neg hs]
    rw [Bool.not_eq_true] at hs
    by_cases hretry : reply.status = 500 ∨ reply.status = 503
    · rw [if_pos hretry]
      exact hretried reply rfl hs hretry
    · rw [if_neg hretry]
      exact hother reply rfl hs hretry
  | error err => exact herror err rfl

/-- One attempt, given what the attempts after it do; the last attempt has none after it. -/
theorem sat_attempt (c : ChatCall) (after : KeySlot → Handler Response) (attempt : ℕ)
    (rest : List ℕ) (slot : KeySlot) (ha : a.Ready)
    (hrest : attempt ≠ maxRetries → ∀ (slot : KeySlot) (a : Account), a.Ready →
      Sat add Permitted (Answered .openAI req) (chatLoop c after rest slot) a) :
    Sat add Permitted (Answered .openAI req) (chatLoop c after (attempt :: rest) slot) a := by
  refine sat_ready ha (silent_of_selects (selects_rotate attempt slot)) fun slot => ?_
  refine sat_part (immediate_perform ⟨trivial, nofun, nofun, nofun⟩) fun upstreamStart _ => ?_
  refine ⟨⟨nofun, fun _ => ha.admitted, fun _ => ha.records, fun _ h => ?_⟩, fun result => ?_⟩
  · rw [ha.unread] at h
    cases h
  · have hagain := fun hmax => hrest hmax slot
    refine chatResult_rule (S := fun p => Sat add Permitted (Answered .openAI req) p
      (add a (.send (c.request slot)) result)) ?_ ?_ ?_ ?_
    · rintro reply rfl hs
      exact sat_chatSuccess c slot upstreamStart hs rfl ha.records
    · -- the body of a retryable reply is read before the next call, so none is left unread
      rintro reply rfl hs -
      refine sat_readErrorBody ha.records fun errorBody => ?_
      exact sat_chatFailed c attempt slot _ errorBody ha (.ok reply)
        (sat_chatExhausted c slot errorBody hs rfl rfl ha.records) hagain
    · rintro reply rfl hs -
      exact sat_chatOther c slot hs rfl ha.records
    · rintro err rfl
      have hunreachable : Sat add Permitted (Answered .openAI req) (chatUnreachable c slot err)
          { a with last := some (.error err), unread := false } :=
        sat_chatUnreachable c slot rfl rfl ha.records
      exact sat_chatFailed c attempt slot 502 err ha (.error err) hunreachable hagain

/-- **The rule for the retry loop**: `S` holds of the loop in every state that satisfies `K`, if it
does so for one attempt whenever it does for the attempts after it; the last attempt has none after
it. -/
theorem chatLoop_rule {σ : Type} {K : σ → Prop} {S : Handler Response → σ → Prop} (c : ChatCall)
    (after : KeySlot → Handler Response)
    (hattempt : ∀ (attempt : ℕ) (rest : List ℕ) (slot : KeySlot) (s : σ), K s →
      (attempt ≠ maxRetries → ∀ (slot : KeySlot) (s : σ), K s → S (chatLoop c after rest slot) s) →
      S (chatLoop c after (attempt :: rest) slot) s)
    (slot : KeySlot) {s : σ} (hs : K s) : S (chatLoop c after attempts slot) s := by
  -- by induction on the attempts that are left after the first
  have hloop : ∀ (n k : ℕ) (slot : KeySlot) (s : σ), k + n = maxRetries → K s →
      S (chatLoop c after (List.range' k (n + 1)) slot) s := by
    intro n
    induction n with
    | zero =>
      intro k slot s hk hs
      exact hattempt k [] slot s hs fun hne => absurd hk hne
    | succ n ih =>
      intro k slot s hk hs
      rw [List.range'_succ]
      exact hattempt k _ slot s hs fun _ slot s hs => ih (k + 1) slot s (by omega) hs
  exact hloop 9 1 slot s rfl hs

theorem sat_chatUpstream (env : Env) (headers : HeaderMap) (stream : Bool) (p : Prepared)
    (ha : a.Ready) :
    Sat add Permitted (Answered .openAI req) (chatUpstream env headers stream p) a := by
  refine sat_part (immediate_perform ⟨trivial, nofun, nofun, nofun⟩) fun reqStart _ => ?_
  exact chatLoop_rule (K := Account.Ready) _ _
    (fun k rest slot _ ha hrest => sat_attempt _ _ k rest slot ha hrest) p.slot ha

/-! ### The Anthropic handler -/

theorem sat_messagesSuccess (c : MessagesCall) (upstreamStart : ℕ) {reply : Reply}
    (hs : isSuccess reply.status = true) (hlast : a.last = some (.ok reply))
    (hrec : a.records = []) :
    Sat add Permitted (Answered .anthropic req) (messagesSuccess c upstreamStart reply) a := by
  refine sat_part (immediate_perform ⟨trivial, nofun, nofun, nofun⟩) fun _ _ => ?_
  by_cases hsse : reply.headers.isSse = true
  · rw [if_pos hsse]
    refine sat_part (immediate_streamRecord _ _ _) fun record hstatus => ?_
    have hstream : reply.isEventStream = true := by simp [Reply.isEventStream, hs, hsse]
    exact .streamed _ _ reply _ hlast hstream hrec rfl rfl hstatus rfl
  · rw [if_neg hsse]
    have hno : reply.isEventStream = false := by simp [Reply.isEventStream, hsse]
    refine sat_readBodyOrEmpty hrec fun body => ?_
    refine sat_part (immediate_perform ⟨trivial, nofun, nofun, nofun⟩) fun now _ => ?_
    refine sat_recordStat hrec fun r hr => ?_
    exact .relayed _ _ reply r _ hlast rfl hno (fun _ => Or.inl hs) rfl rfl rfl hr

theorem sat_messagesError (c : MessagesCall) {reply : Reply}
    (hs : isSuccess reply.status = false) (h400 : 400 ≤ reply.status)
    (hlast : a.last = some (.ok reply)) (hrec : a.records = []) :
    Sat add Permitted (Answered .anthropic req) (messagesError c reply) a := by
  have hno : reply.isEventStream = false := by simp [Reply.isEventStream, hs]
  refine sat_readErrorBody hrec fun errorBody => ?_
  refine sat_part (immediate_logUpstreamError _ _ _ _ _ _ _ _) fun _ _ => ?_
  refine sat_part (immediate_doIf (immediate_perform ⟨trivial, nofun, nofun, nofun⟩)) fun _ _ => ?_
  refine sat_part (immediate_doIf (immediate_perform ⟨trivial, nofun, nofun, nofun⟩)) fun _ _ => ?_
  refine sat_recordStat hrec fun r hr => ?_
  exact .relayed _ _ reply r _ hlast rfl hno (fun _ => Or.inr h400) rfl rfl rfl hr

theorem sat_messagesUnreachable (c : MessagesCall) {err : String}
    (hlast : a.last = some (.error err)) (hunread : a.unread = false) (hrec : a.records = []) :
    Sat add Permitted (Answered .anthropic req) (messagesUnreachable c err) a := by
  refine sat_part (immediate_perform ⟨trivial, nofun, nofun, nofun⟩) fun _ _ => ?_
  refine sat_part (immediate_logUpstreamError _ _ _ _ _ _ _ _) fun _ _ => ?_
  refine sat_recordStat hrec fun r hr => ?_
  exact .unreachable _ _ err r _ hlast hunread rfl rfl rfl rfl

/-- The rule for a reply: what holds of each way to go on holds of what is done with the reply. -/
theorem messagesReply_rule {S : Handler Response → Prop} {c : MessagesCall} {upstreamStart : ℕ}
    {reply : Reply}
    (hsuccess : isSuccess reply.status = true → S (messagesSuccess c upstreamStart reply))
    (herror : isSuccess reply.status = false → 400 ≤ reply.status → S (messagesError c reply))
    (hother : isSuccess reply.status = false → ¬ 400 ≤ reply.status →
      S (readBodyOrEmpty >>= fun body =>
        pure { status := reply.status, headers := [], body := .bytes body })) :
    S (if isSuccess reply.status then messagesSuccess c upstreamStart reply
      else if 400 ≤ reply.status then messagesError c reply
      else readBodyOrEmpty >>= fun body =>
        pure { status := reply.status, headers := [], body := .bytes body }) := by
  by_cases hs : isSuccess reply.status = true
  · rw [if_pos hs]
    exact hsuccess hs
  rw [if_neg hs]
  rw [Bool.not_eq_true] at hs
  by_cases h400 : 400 ≤ reply.status
  · rw [if_pos h400]
    exact herror hs h400
  · rw [if_neg h400]
    exact hother hs h400

theorem sat_messagesUpstream (env : Env) (headers : HeaderMap) (stream : Bool) (p : Prepared)
    (ha : a.Ready) :
    Sat add Permitted (Answered .anthropic req) (messagesUpstream env headers stream p) a := by
  refine sat_part (immediate_perform ⟨trivial, nofun, nofun, nofun⟩) fun reqStart _ => ?_
  refine sat_part (immediate_perform ⟨trivial, nofun, nofun, nofun⟩) fun upstreamStart _ => ?_
  refine ⟨⟨nofun, fun _ => ha.admitted, fun _ => ha.records, fun _ h => ?_⟩, fun result => ?_⟩
  · rw [ha.unread] at h
    cases h
  · cases result with
    | ok reply =>
      refine messagesReply_rule (S := fun p => Sat add Permitted (Answered .anthropic req) p
        (add a (.send _) (.ok reply))) (fun hs => ?_) (fun hs h400 => ?_) fun hs h400 => ?_
      · exact sat_messagesSuccess _ upstreamStart hs rfl ha.records
      · exact sat_messagesError _ hs h400 rfl ha.records
      · refine sat_readBodyOrEmpty ha.records fun body => ?_
        exact .passedOn _ _ reply _ rfl rfl rfl hs h400 ha.records rfl rfl
    | error err => exact sat_messagesUnreachable _ rfl rfl ha.records

/-! ### Both handlers -/

/-- An error object that was given a status, and is sent without it. -/
structure Rejects (g : ℕ) (resp : Response) : Prop where
  body : ∃ b, resp.body = .bytes b
  given : resp.given = some g
  status : resp.status = 200

theorem rejects_openaiError (status : ℕ) (message kind : String) :
    Rejects status (openaiError status message kind) := ⟨⟨_, rfl⟩, rfl, rfl⟩

theorem rejects_anthropicError (status : ℕ) (message : String) :
    Rejects status (anthropicError status message) := ⟨⟨_, rfl⟩, rfl, rfl⟩

/-- Rejecting is one of the ways to return as long as nothing has been called. -/
theorem Rejects.answered {api : ApiFormat} {cfg : Config} {resp : Response} {g : ℕ}
    (h : Rejects g resp) (hg : g = 400 ∨ g = 503) (hok : checkAuth cfg req.headers = true)
    (hread : req.body ≠ none) (hauth : a.authConfig = some cfg) (hlast : a.last = none)
    (hunread : a.unread = false) (hrec : a.records = []) : Answered api req a resp := by
  obtain ⟨b, hb⟩ := h.body
  exact .rejected _ _ cfg b g hauth hok hread hlast hunread hrec hb h.given hg h.status

/-- The part that both pipelines share from the gate on: they differ in their error objects, in what
they do to the payload, and in the upstream part. -/
theorem sat_admission {api : ApiFormat} (env : Env) (payload : Value) {cfg : Config}
    (hok : checkAuth cfg req.headers = true) (hread : req.body ≠ none) {queueFull noKey : Response}
    {preparePayload : KeySlot → Handler (Value × Config × String)}
    {upstream : Prepared → Handler Response} (hfull : Rejects 503 queueFull)
    (hnone : Rejects 503 noKey)
    (hprep : ∀ slot, Ensures Prepares (fun _ => True) (preparePayload slot))
    (hup : ∀ (p : Prepared) (a : Account), a.Ready →
      Sat add Permitted (Answered api req) (upstream p) a) :
    Sat add Permitted (Answered api req)
      ((do
          let admitted ← perform .gateAcquire
          if admitted = true then do
            let selected ← selectKey env payload
            match selected with
            | none => pure (.error noKey)
            | some (slot, sessNum) => do
              let (final, cfg, resolved) ← preparePayload slot
              pure (.ok ⟨final, cfg, resolved, slot, sessNum⟩)
          else pure (.error queueFull) : Handler (Except Response Prepared)) >>= fun
        | .error resp => pure resp
        | .ok p => upstream p)
      { authConfig := some cfg } := by
  refine ⟨⟨fun _ => rfl, nofun, fun _ => rfl, nofun⟩, fun admitted => ?_⟩
  cases admitted with
  | false => exact hfull.answered (Or.inr rfl) hok hread rfl rfl rfl rfl
  | true =>
    have ha : ({ authConfig := some cfg, admitted := true } : Account).Ready :=
      ⟨nofun, rfl, rfl, rfl⟩
    show Sat _ _ _ ((selectKey env payload >>= _) >>= _)
      ({ authConfig := some cfg, admitted := true } : Account)
    rw [sat_bind]
    refine sat_ready ha (silent_of_selects (selects_selectKey env payload)) fun selected => ?_
    cases selected with
    | none => exact hnone.answered (Or.inr rfl) hok hread rfl rfl rfl rfl
    | some s =>
      show Sat _ _ _ (preparePayload s.1 >>= _) _
      exact sat_ready ha (silent_of_prepares (hprep s.1)) fun p => hup _ _ ha

theorem sat_chatParsed (env : Env) (payload : Value) {cfg : Config}
    (hok : checkAuth cfg req.headers = true) (hread : req.body ≠ none) :
    Sat add Permitted (Answered .openAI req) (chatParsed env req.headers payload)
      { authConfig := some cfg } :=
  sat_admission env payload hok hread (rejects_openaiError _ _ _) (rejects_openaiError _ _ _)
    (fun slot => prepares_chatPayload payload slot _) fun p _ ha => sat_chatUpstream env _ _ p ha

theorem sat_messagesParsed (env : Env) (payload : Value) {cfg : Config}
    (hok : checkAuth cfg req.headers = true) (hread : req.body ≠ none) :
    Sat add Permitted (Answered .anthropic req) (messagesParsed env req.headers payload)
      { authConfig := some cfg } := by
  -- this pipeline looks at the pool before it asks the gate
  refine ⟨⟨nofun, nofun, nofun, nofun⟩, fun total => ?_⟩
  show Sat _ _ _ ((if (total : ℕ) = 0 then _ else _) >>= _)
    ({ authConfig := some cfg } : Account)
  by_cases htotal : (total : ℕ) = 0
  · rw [if_pos htotal]
    exact (rejects_anthropicError _ _).answered (Or.inr rfl) hok hread rfl rfl rfl rfl
  · rw [if_neg htotal]
    exact sat_admission env payload hok hread (rejects_anthropicError _ _)
      (rejects_anthropicError _ _) (fun slot => prepares_messagesPayload payload slot)
      fun p _ ha => sat_messagesUpstream env _ _ p ha

/-- **The rule for the part that both handlers share up to JSON parsing**, for any monitor. -/
theorem sat_request {σ : Type} {update : σ → (e : Eff) → Answer e → σ} {I : σ → Eff → Prop}
    {Q : σ → Response → Prop} {s : σ} {env : Env} {refusal tooLarge : Response}
    {invalid : String → Response} {parsed : Value → Handler Response} (hconfig : I s .config)
    (hrefusal : ∀ cfg, checkAuth cfg req.headers = false → Q (update s .config cfg) refusal)
    (hlarge : ∀ cfg, checkAuth cfg req.headers = true → req.body = none →
      Q (update s .config cfg) tooLarge)
    (hinvalid : ∀ cfg bytes e, checkAuth cfg req.headers = true → req.body = some bytes →
      env.fromSlice bytes = .error e → Q (update s .config cfg) (invalid e))
    (hparsed : ∀ cfg bytes payload, checkAuth cfg req.headers = true → req.body = some bytes →
      env.fromSlice bytes = .ok payload →
        Sat update I Q (parsed payload) (update s .config cfg)) :
    Sat update I Q
      (do
        let cfg ← perform .config
        if checkAuth cfg req.headers then
          match req.body with
          | none => pure tooLarge
          | some bytes =>
            match env.fromSlice bytes with
            | .error e => pure (invalid e)
            | .ok payload => parsed payload
        else pure refusal) s := by
  refine ⟨hconfig, fun cfg => ?_⟩
  show Sat _ _ _ (if checkAuth cfg req.headers = true then _ else _) (update s .config cfg)
  by_cases hok : checkAuth cfg req.headers = true
  · rw [if_pos hok]
    cases hbody : req.body with
    | none => exact hlarge cfg hok hbody
    | some bytes =>
      show Sat _ _ _ (match env.fromSlice bytes with | .error _ => _ | .ok _ => _) _
      cases hjson : env.fromSlice bytes with
      | error e => exact hinvalid cfg bytes e hok hbody hjson
      | ok payload => exact hparsed cfg bytes payload hok hbody hjson
  · rw [if_neg hok]
    exact hrefusal cfg (by simpa using hok)

/-- The part that both handlers share up to JSON parsing. -/
theorem sat_received {api : ApiFormat} (env : Env) {refusal tooLarge : Response}
    {invalid : String → Response} {parsed : Value → Handler Response}
    (hrefusal : (∃ b, refusal.body = .bytes b) ∧ refusal.given = none)
    (hlarge : (∃ b, tooLarge.body = .bytes b) ∧ tooLarge.given = none)
    (hinvalid : ∀ e, Rejects 400 (invalid e))
    (hparsed : ∀ payload cfg, checkAuth cfg req.headers = true → req.body ≠ none →
      Sat add Permitted (Answered api req) (parsed payload) { authConfig := some cfg }) :
    Sat add Permitted (Answered api req)
      (do
        let cfg ← perform .config
        if checkAuth cfg req.headers then
          match req.body with
          | none => pure tooLarge
          | some bytes =>
            match env.fromSlice bytes with
            | .error e => pure (invalid e)
            | .ok payload => parsed payload
        else pure refusal) {} := by
  have hread : ∀ bytes, req.body = some bytes → req.body ≠ none := by
    intro bytes hbody
    rw [hbody]
    nofun
  refine sat_request ⟨nofun, nofun, nofun, nofun⟩ (fun cfg hok => ?_) (fun cfg _ hbody => ?_)
    (fun _ bytes e hok hbody _ => ?_) fun cfg bytes payload hok hbody _ => ?_
  · obtain ⟨⟨b, hb⟩, hgiven⟩ := hrefusal
    exact .refused _ _ cfg b rfl (Or.inl hok) rfl rfl rfl hb hgiven
  · obtain ⟨⟨b, hb⟩, hgiven⟩ := hlarge
    exact .refused _ _ cfg b rfl (Or.inr hbody) rfl rfl rfl hb hgiven
  · exact (hinvalid e).answered (Or.inl rfl) hok (hread bytes hbody) rfl rfl rfl rfl
  · exact hparsed payload cfg hok (hread bytes hbody)

/-- **The account of a request**: whatever the answers, the handler only performs permitted effects
and returns in one of the ways of `Answered`. -/
theorem sat_handler (env : Env) (api : ApiFormat) (req : Request) :
    Sat add Permitted (Answered api req) (handler env api req) {} := by
  cases api with
  | openAI =>
    exact sat_received env ⟨⟨_, rfl⟩, rfl⟩ ⟨⟨_, rfl⟩, rfl⟩ (fun e => rejects_openaiError _ _ _)
      fun payload cfg hok hread => sat_chatParsed env payload hok hread
  | anthropic =>
    exact sat_received env ⟨⟨_, rfl⟩, rfl⟩ ⟨⟨_, rfl⟩, rfl⟩ (fun e => rejects_anthropicError _ _)
      fun payload cfg hok hread => sat_messagesParsed env payload hok hread

end Handlers

end Mybro
