import Mybro.ConfigFile

/-!
# The search for a port (`main.rs`)

`bind_with_retry` tries an address four times while it is in use, and then the address with the next
port. `searchesUpwards_iff` says for which outcomes of its attempts the search goes upwards port by
port and comes to an end.
-/

namespace Mybro

/-- What an attempt to bind gives. -/
inductive BindOutcome
  | listener
  | addrInUse (e : String)
  | otherError (e : String)
  deriving DecidableEq, Repr

/-- Whether the address was in use. -/
def BindOutcome.inUse : BindOutcome → Bool
  | addrInUse _ => true
  | _ => false

/-- `str::parse::<u16>`. -/
def parseU16 (cs : List Char) : Option UInt16 :=
  (parseU64 cs).bind fun n => if n.toNat < 2 ^ 16 then some n.toUInt16 else none

/-- The address with the next port, when it has one colon with a number behind it; the sum wraps. -/
def nextAddr (addr : String) : Option String :=
  match addr.toList.splitOn ':' with
  | [host, port] =>
    (parseU16 port).map fun port => String.ofList host ++ ":" ++ toString (port + 1).toNat
  | _ => none

/-- The loop of `bind_with_retry`: before an attempt, or when it has ended. -/
inductive PortSearch
  | trying (addr : String) (retries : ℕ)
  | listening (addr : String)
  | panicked (message : String)
  deriving DecidableEq, Repr

/-- One attempt. A search that has ended stays as it is. -/
def PortSearch.step : PortSearch → BindOutcome → PortSearch
  | trying addr _, .listener => listening addr
  | trying addr retries, .addrInUse e =>
    if retries < 3 then trying addr (retries + 1)
    else
      match nextAddr addr with
      | some newAddr => trying newAddr 0
      | none => panicked ("failed to bind: " ++ e)
  | trying addr _, .otherError e => panicked ("failed to bind " ++ addr ++ ": " ++ e)
  | listening addr, _ => listening addr
  | panicked message, _ => panicked message

/-- `bind_with_retry` after `n` attempts with the given outcomes. -/
def bindWithRetry (listenAddr : String) (outcome : ℕ → BindOutcome) : ℕ → PortSearch
  | 0 => .trying listenAddr 0
  | n + 1 => (bindWithRetry listenAddr outcome n).step (outcome n)

/-- An address of the host with the given port. -/
def AtPort (host : String) (n : ℕ) (addr : String) : Prop :=
  ∃ text port, addr = host ++ ":" ++ text ∧ parseU16 text.toList = some port ∧ port.toNat = n

/-- The search is about to make an attempt. -/
def PortSearch.Active (s : PortSearch) : Prop := ∃ addr retries, s = .trying addr retries

/-- Each port is tried four times at most, then the next higher one; the search ends, and with a
listener only on an address that was tried. -/
structure SearchesUpwards (host text : String) (port : UInt16) (outcome : ℕ → BindOutcome) :
    Prop where
  upwards : ∀ n addr retries, bindWithRetry (host ++ ":" ++ text) outcome n = .trying addr retries →
    AtPort host (port.toNat + n / 4) addr
  next : ∀ n, (bindWithRetry (host ++ ":" ++ text) outcome n).Active → (outcome n).inUse = true →
    port.toNat + (n + 1) / 4 ≤ 65535 → (bindWithRetry (host ++ ":" ++ text) outcome (n + 1)).Active
  ends : ∃ n, (∃ message, bindWithRetry (host ++ ":" ++ text) outcome n = .panicked message) ∨
    ∃ addr, bindWithRetry (host ++ ":" ++ text) outcome n = .listening addr ∧
      ∃ m < n, ∃ retries, bindWithRetry (host ++ ":" ++ text) outcome m = .trying addr retries

/-- The condition: before the ports are used up, an attempt meets an address that is not in use. A
host with a colon has no next port: there one of the first four attempts does, or the port is the
last one. -/
def SomeoneYields (host : String) (port : UInt16) (outcome : ℕ → BindOutcome) : Prop :=
  if ':' ∈ host.toList then port = 65535 ∨ ∃ n < 4, (outcome n).inUse = false
  else ∃ n < 4 * (65536 - port.toNat), (outcome n).inUse = false

/-! ### Addresses -/

section

variable {host text : String} {port : UInt16}

theorem not_mem_of_parseU16 (h : parseU16 text.toList = some port) : ':' ∉ text.toList := by
  obtain ⟨n, hn, -⟩ := Option.bind_eq_some_iff.1 h
  obtain ⟨sign, ds, hsign, htext, hds, -, -⟩ := parseU64_eq_some_iff.1 hn
  rw [htext, List.mem_append, not_or]
  refine ⟨?_, fun hmem => absurd (hds.2 ':' hmem) (by decide)⟩
  rcases hsign with rfl | rfl <;> decide

/-- The display of a port is read as the port. -/
theorem parseU16_toString (port : UInt16) :
    parseU16 (toString port.toNat).toList = some port := by
  have hlt : port.toNat < 2 ^ 64 := port.toNat_lt.trans (by decide)
  rw [Nat.toString_eq_repr, Nat.toList_repr, parseU16, parseU64_toDigits hlt, Option.bind_some,
    UInt64.toNat_ofNat_of_lt' hlt, if_pos port.toNat_lt, Option.some.injEq, ← UInt16.toNat_inj,
    UInt64.toNat_toUInt16, UInt64.toNat_ofNat_of_lt' hlt]
  exact Nat.mod_eq_of_lt port.toNat_lt

theorem toList_addr (host text : String) :
    (host ++ ":" ++ text).toList = host.toList ++ ':' :: text.toList := by
  rw [String.toList_append, String.toList_append, List.append_assoc]
  rfl

/-- The next port of a host without a colon. -/
theorem nextAddr_eq (hhost : ':' ∉ host.toList) (h : parseU16 text.toList = some port) :
    nextAddr (host ++ ":" ++ text) = some (host ++ ":" ++ toString (port + 1).toNat) := by
  unfold nextAddr
  rw [toList_addr, List.splitOn_append_cons_self_of_not_mem hhost,
    List.splitOn_eq_singleton (not_mem_of_parseU16 h)]
  simp [h]

/-- A host with a colon has no next port. -/
theorem nextAddr_eq_none (hhost : ':' ∈ host.toList) (text : String) :
    nextAddr (host ++ ":" ++ text) = none := by
  obtain ⟨a, b, hsplit, ha⟩ := List.eq_append_cons_of_mem hhost
  unfold nextAddr
  rw [toList_addr, hsplit, List.append_assoc, List.cons_append,
    List.splitOn_append_cons_self_of_not_mem ha, List.splitOn_append_cons_self]
  obtain ⟨x, xs, hx⟩ := List.exists_cons_of_ne_nil (List.splitOn_ne_nil ':' b)
  obtain ⟨y, ys, hy⟩ := List.exists_cons_of_ne_nil (List.splitOn_ne_nil ':' text.toList)
  rw [hx, hy]
  cases xs <;> rfl

/-- The next address, when there is one, is at the next port. -/
theorem AtPort.next {n : ℕ} {addr newAddr : String} (h : AtPort host n addr)
    (hnext : nextAddr addr = some newAddr) : AtPort host ((n + 1) % 65536) newAddr := by
  obtain ⟨text, port, rfl, hparse, rfl⟩ := h
  by_cases hhost : ':' ∈ host.toList
  · rw [nextAddr_eq_none hhost] at hnext
    cases hnext
  · rw [nextAddr_eq hhost hparse] at hnext
    cases hnext
    exact ⟨_, port + 1, rfl, parseU16_toString (port + 1), UInt16.toNat_add port 1⟩

/-- There is a next address exactly when the host has no colon. -/
theorem AtPort.isSome_nextAddr_iff {n : ℕ} {addr : String} (h : AtPort host n addr) :
    (nextAddr addr).isSome = true ↔ ':' ∉ host.toList := by
  obtain ⟨text, port, rfl, hparse, -⟩ := h
  by_cases hhost : ':' ∈ host.toList
  · rw [nextAddr_eq_none hhost]
    simp [hhost]
  · rw [nextAddr_eq hhost hparse]
    simp [hhost]

end

/-! ### The attempts -/

section

variable {host text : String} {port : UInt16} {outcome : ℕ → BindOutcome}

/-- The search before an attempt: how often the address was tried, and at which port it is. -/
structure PortSearch.At (host : String) (port : UInt16) (n : ℕ) (addr : String) (retries : ℕ) :
    Prop where
  retries : retries = n % 4
  addr : AtPort host ((port.toNat + n / 4) % 65536) addr

/-- **An attempt that the search goes on after.** -/
theorem PortSearch.At.step {n : ℕ} {addr : String} {retries : ℕ}
    (h : PortSearch.At host port n addr retries) {o : BindOutcome} {addr' : String} {retries' : ℕ}
    (hstep : (PortSearch.trying addr retries).step o = .trying addr' retries') :
    PortSearch.At host port (n + 1) addr' retries' ∧ o.inUse = true := by
  obtain ⟨rfl, haddr⟩ := h
  cases o with
  | listener => cases hstep
  | otherError e => cases hstep
  | addrInUse e =>
    simp only [PortSearch.step] at hstep
    split_ifs at hstep with hlt
    · cases hstep
      have hsame : (n + 1) / 4 = n / 4 := by omega
      exact ⟨⟨by omega, by rwa [hsame]⟩, rfl⟩
    · cases hnext : nextAddr addr with
      | none =>
        rw [hnext] at hstep
        cases hstep
      | some newAddr =>
        rw [hnext] at hstep
        cases hstep
        have hport : ((port.toNat + n / 4) % 65536 + 1) % 65536 =
            (port.toNat + (n + 1) / 4) % 65536 := by omega
        refine ⟨⟨by omega, ?_⟩, rfl⟩
        rw [← hport]
        exact haddr.next hnext

/-- The search goes on after an address that is in use, unless there is no next address. -/
theorem PortSearch.At.active_step_iff {n : ℕ} {addr : String} {retries : ℕ}
    (h : PortSearch.At host port n addr retries) {o : BindOutcome} :
    ((PortSearch.trying addr retries).step o).Active ↔
      o.inUse = true ∧ (n % 4 = 3 → ':' ∉ host.toList) := by
  obtain ⟨rfl, haddr⟩ := h
  cases o with
  | listener => exact iff_of_false nofun nofun
  | otherError e => exact iff_of_false nofun nofun
  | addrInUse e =>
    simp only [PortSearch.step]
    split_ifs with hlt
    · exact iff_of_true ⟨_, _, rfl⟩ ⟨rfl, fun hthree => absurd hlt (by omega)⟩
    · have hthree : n % 4 = 3 := by omega
      rw [← haddr.isSome_nextAddr_iff]
      cases nextAddr addr with
      | none => exact iff_of_false nofun fun h => absurd (h.2 hthree) (by decide)
      | some newAddr => exact iff_of_true ⟨_, _, rfl⟩ ⟨rfl, fun _ => rfl⟩

/-- An attempt that ends the search gives a listener on its address, or a panic. -/
theorem PortSearch.ended_of_step {addr : String} {retries : ℕ} {o : BindOutcome}
    (h : ¬ ((PortSearch.trying addr retries).step o).Active) :
    (∃ message, (PortSearch.trying addr retries).step o = .panicked message) ∨
      (PortSearch.trying addr retries).step o = .listening addr := by
  cases o with
  | listener => exact Or.inr rfl
  | otherError e => exact Or.inl ⟨_, rfl⟩
  | addrInUse e =>
    simp only [PortSearch.step] at h ⊢
    split_ifs at h ⊢
    · exact absurd ⟨_, _, rfl⟩ h
    · cases hnext : nextAddr addr with
      | none => exact Or.inl ⟨_, rfl⟩
      | some newAddr =>
        rw [hnext] at h
        exact absurd ⟨_, _, rfl⟩ h

/-- A search that has ended stays as it is. -/
theorem PortSearch.step_of_not_active {s : PortSearch} (h : ¬ s.Active) (o : BindOutcome) :
    s.step o = s := by
  cases s with
  | trying addr retries => exact absurd ⟨addr, retries, rfl⟩ h
  | listening addr => rfl
  | panicked message => rfl

/-- **What every attempt of the search is at.** -/
theorem at_of_trying (hport : parseU16 text.toList = some port) {n : ℕ} {addr : String}
    {retries : ℕ}
    (h : bindWithRetry (host ++ ":" ++ text) outcome n = .trying addr retries) :
    PortSearch.At host port n addr retries := by
  induction n generalizing addr retries with
  | zero =>
    cases h
    exact ⟨rfl, text, port, rfl, hport, (Nat.mod_eq_of_lt port.toNat_lt).symm⟩
  | succ n ih =>
    rw [bindWithRetry] at h
    by_cases hactive : (bindWithRetry (host ++ ":" ++ text) outcome n).Active
    · obtain ⟨addr₀, retries₀, hsearch⟩ := hactive
      rw [hsearch] at h
      exact ((ih hsearch).step h).1
    · rw [PortSearch.step_of_not_active hactive] at h
      exact absurd ⟨addr, retries, h⟩ hactive

/-- **How long the search goes on**: as long as every address is in use, and without a next address
for four attempts. -/
theorem active_iff (hport : parseU16 text.toList = some port) (n : ℕ) :
    (bindWithRetry (host ++ ":" ++ text) outcome n).Active ↔
      (∀ m < n, (outcome m).inUse = true) ∧ (':' ∈ host.toList → n < 4) := by
  induction n with
  | zero => exact iff_of_true ⟨_, _, rfl⟩ ⟨nofun, fun _ => by decide⟩
  | succ n ih =>
    rw [bindWithRetry, Nat.forall_lt_succ_right]
    by_cases hactive : (bindWithRetry (host ++ ":" ++ text) outcome n).Active
    · obtain ⟨hall, hfour⟩ := ih.1 hactive
      obtain ⟨addr, retries, hsearch⟩ := hactive
      rw [hsearch, (at_of_trying hport hsearch).active_step_iff]
      constructor
      · rintro ⟨hinUse, hcolon⟩
        refine ⟨⟨hall, hinUse⟩, fun hmem => ?_⟩
        have hlt := hfour hmem
        have hne : n % 4 ≠ 3 := fun hthree => hcolon hthree hmem
        omega
      · rintro ⟨⟨-, hinUse⟩, hlt⟩
        refine ⟨hinUse, fun hthree hmem => ?_⟩
        have hlt := hlt hmem
        omega
    · rw [PortSearch.step_of_not_active hactive]
      refine iff_of_false hactive fun ⟨⟨hall, _⟩, hlt⟩ => hactive (ih.2 ⟨hall, fun hmem => ?_⟩)
      exact (Nat.lt_succ_self n).trans (hlt hmem)

/-- A search that has ended has panicked, or listens on an address that was tried. -/
theorem ended_of_not_active {listenAddr : String} {n : ℕ}
    (h : ¬ (bindWithRetry listenAddr outcome n).Active) :
    (∃ message, bindWithRetry listenAddr outcome n = .panicked message) ∨
      ∃ addr, bindWithRetry listenAddr outcome n = .listening addr ∧
        ∃ m < n, ∃ retries, bindWithRetry listenAddr outcome m = .trying addr retries := by
  induction n with
  | zero => exact absurd ⟨_, _, rfl⟩ h
  | succ n ih =>
    rw [bindWithRetry] at h ⊢
    by_cases hactive : (bindWithRetry listenAddr outcome n).Active
    · obtain ⟨addr, retries, hsearch⟩ := hactive
      rw [hsearch] at h ⊢
      rcases PortSearch.ended_of_step h with hpanicked | hlistening
      · exact Or.inl hpanicked
      · exact Or.inr ⟨addr, hlistening, n, Nat.lt_succ_self n, retries, hsearch⟩
    · rw [PortSearch.step_of_not_active hactive]
      rcases ih hactive with hpanicked | ⟨addr, hlistening, m, hm, htried⟩
      · exact Or.inl hpanicked
      · exact Or.inr ⟨addr, hlistening, m, hm.trans (Nat.lt_succ_self n), htried⟩

/-! ### When the search goes upwards -/

/-- A search that goes upwards as long as it goes on, finds a next address as long as there is a
higher port, and stops, does what it should. -/
theorem searchesUpwards_of (hport : parseU16 text.toList = some port)
    (hupwards : ∀ n, (bindWithRetry (host ++ ":" ++ text) outcome n).Active →
      port.toNat + n / 4 ≤ 65535)
    (hnext : ∀ n, (∀ m < n + 1, (outcome m).inUse = true) → port.toNat + (n + 1) / 4 ≤ 65535 →
      ':' ∈ host.toList → n + 1 < 4)
    (hends : ∃ n, ¬ (bindWithRetry (host ++ ":" ++ text) outcome n).Active) :
    SearchesUpwards host text port outcome := by
  refine ⟨fun n addr retries h => ?_, fun n hactive hinUse hle => ?_, ?_⟩
  · have hat := (at_of_trying hport h).addr
    rwa [Nat.mod_eq_of_lt (Nat.lt_succ_of_le (hupwards n ⟨addr, retries, h⟩))] at hat
  · have hall : ∀ m < n + 1, (outcome m).inUse = true := by
      rw [Nat.forall_lt_succ_right]
      exact ⟨((active_iff hport n).1 hactive).1, hinUse⟩
    exact (active_iff hport (n + 1)).2 ⟨hall, hnext n hall hle⟩
  · obtain ⟨n, hn⟩ := hends
    exact ⟨n, ended_of_not_active hn⟩

/-- An attempt at an address that is not in use is the last one. -/
theorem le_of_active (hport : parseU16 text.toList = some port) {n k : ℕ}
    (hactive : (bindWithRetry (host ++ ":" ++ text) outcome n).Active)
    (hk : (outcome k).inUse = false) : n ≤ k := by
  by_contra hlt
  have hinUse := ((active_iff hport n).1 hactive).1 k (not_le.1 hlt)
  exact absurd (hk.symm.trans hinUse) (by decide)

/-- The search for a host with a colon, which has no next port. -/
theorem searchesUpwards_iff_of_colon (hport : parseU16 text.toList = some port)
    (hcolon : ':' ∈ host.toList) :
    SearchesUpwards host text port outcome ↔
      port = 65535 ∨ ∃ n < 4, (outcome n).inUse = false := by
  have hlt : port.toNat < 65536 := port.toNat_lt
  have hfour : ¬ (bindWithRetry (host ++ ":" ++ text) outcome 4).Active := fun hactive =>
    absurd (((active_iff hport 4).1 hactive).2 hcolon) (by decide)
  constructor
  · intro h
    by_contra hno
    push Not at hno
    obtain ⟨hlast, hall⟩ := hno
    have hinUse : ∀ m < 4, (outcome m).inUse = true := by simpa using hall
    have hthree : (bindWithRetry (host ++ ":" ++ text) outcome 3).Active :=
      (active_iff hport 3).2 ⟨fun m hm => hinUse m (by omega), fun _ => by decide⟩
    have hne : port.toNat ≠ 65535 := fun heq => hlast (UInt16.toNat_inj.1 heq)
    exact hfour (h.next 3 hthree (hinUse 3 (by decide)) (by omega))
  · intro h
    refine searchesUpwards_of hport (fun n hactive => ?_) (fun n hall hle _ => ?_) ⟨4, hfour⟩
    · have hn := ((active_iff hport n).1 hactive).2 hcolon
      omega
    · by_contra hge
      rcases h with rfl | ⟨k, hk, hyields⟩
      · have hlast : (65535 : UInt16).toNat = 65535 := rfl
        omega
      · exact absurd (hyields.symm.trans (hall k (by omega))) (by decide)

/-- The search for a host without a colon, port by port. -/
theorem searchesUpwards_iff_of_not_colon (hport : parseU16 text.toList = some port)
    (hcolon : ':' ∉ host.toList) :
    SearchesUpwards host text port outcome ↔
      ∃ n < 4 * (65536 - port.toNat), (outcome n).inUse = false := by
  have hlt : port.toNat < 65536 := port.toNat_lt
  constructor
  · intro h
    by_contra hno
    push Not at hno
    have hinUse : ∀ m < 4 * (65536 - port.toNat), (outcome m).inUse = true := by simpa using hno
    -- the ports are used up, and the next attempt is at port 0
    have hactive :
        (bindWithRetry (host ++ ":" ++ text) outcome (4 * (65536 - port.toNat))).Active :=
      (active_iff hport _).2 ⟨hinUse, fun hmem => absurd hmem hcolon⟩
    obtain ⟨addr, retries, hsearch⟩ := hactive
    obtain ⟨text', port', -, -, hat⟩ := h.upwards _ addr retries hsearch
    have hlt' : port'.toNat < 65536 := port'.toNat_lt
    omega
  · rintro ⟨k, hk, hyields⟩
    refine searchesUpwards_of hport (fun n hactive => ?_) (fun _ _ _ hmem => absurd hmem hcolon)
      ⟨k + 1, fun hactive => ?_⟩
    · have hle := le_of_active hport hactive hyields
      omega
    · exact absurd (le_of_active hport hactive hyields) (Nat.not_succ_le_self k)

end

/-- **The search goes upwards and ends exactly when** an attempt meets an address that is not in use
before the ports are used up. -/
theorem searchesUpwards_iff (host text : String) (port : UInt16)
    (hport : parseU16 text.toList = some port) (outcome : ℕ → BindOutcome) :
    SearchesUpwards host text port outcome ↔ SomeoneYields host port outcome := by
  unfold SomeoneYields
  split_ifs with hcolon
  · exact searchesUpwards_iff_of_colon hport hcolon
  · exact searchesUpwards_iff_of_not_colon hport hcolon

/-- The result for an address that is in use four times, and free at the next port. -/
theorem searchesUpwards_second_port :
    SearchesUpwards "127.0.0.1" "8084" 8084
        (fun n => if n < 4 then .addrInUse "in use" else .listener) ∧
      bindWithRetry "127.0.0.1:8084"
        (fun n => if n < 4 then .addrInUse "in use" else .listener) 5 =
          .listening "127.0.0.1:8085" :=
  ⟨(searchesUpwards_iff _ _ _ (by decide) _).2 (by
    unfold SomeoneYields
    exact ⟨4, by decide, rfl⟩), by decide⟩

/-- Behind port 65535 the search goes on at port 0, and never ends while every address is in use;
for an address with a colon in its host it gives up before the next port. -/
theorem search_wraps_to_port_zero :
    bindWithRetry "127.0.0.1:65535" (fun _ => .addrInUse "in use") 4 = .trying "127.0.0.1:0" 0 ∧
      (∀ n, (bindWithRetry "127.0.0.1:65535" (fun _ => .addrInUse "in use") n).Active) ∧
      ¬ SearchesUpwards "127.0.0.1" "65535" 65535 (fun _ => .addrInUse "in use") ∧
      bindWithRetry "[::1]:8084" (fun _ => .addrInUse "in use") 4 =
        .panicked "failed to bind: in use" ∧
      ¬ SearchesUpwards "[::1]" "8084" 8084 (fun _ => .addrInUse "in use") := by
  have hlast : parseU16 "65535".toList = some 65535 := by decide
  have haddr : "127.0.0.1" ++ ":" ++ "65535" = "127.0.0.1:65535" := by decide
  refine ⟨by decide, fun n => ?_, fun h => ?_, by decide, fun h => ?_⟩
  · rw [← haddr]
    exact (active_iff hlast n).2 ⟨fun _ _ => rfl, fun hmem => absurd hmem (by decide)⟩
  · obtain ⟨n, -, hyields⟩ := (searchesUpwards_iff_of_not_colon hlast (by decide)).1 h
    exact absurd hyields (by decide)
  · rcases (searchesUpwards_iff_of_colon (by decide) (by decide)).1 h with heq | ⟨n, -, hyields⟩
    · exact absurd heq (by decide)
    · exact absurd hyields (by decide)

end Mybro
