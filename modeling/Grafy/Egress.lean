import Grafy.Addresses
import Grafy.Texts

/-!
Which destinations a node's configuration may reach. An operator writes grants
as texts, each a host or a network with an optional port, and a name is dialed
only at addresses the policy lets through: global ones, any address of a granted
host, or one in a granted network. A host grant is held to its port. A network
grant keeps the port its text names, and the check of an address never looks at
it.
-/
namespace Grafy.Egress

open Addresses

/-- The parts of Unicode the texts go through: `str.lower`, `str.isdigit` on one
character, and the value of a character `int` takes for a digit. -/
structure Unicode where
  lower : List Char → List Char
  isdigit : Char → Bool
  decimal : Char → Option ℕ

/-- `_Grant`. -/
structure Grant where
  host : Option (List Char)
  port : Option ℕ
  network : Option Network
deriving DecidableEq

/-- The `ValueError`s of `from_destinations`, with the text each quotes. -/
inductive GrantError where
  | unclosedBracket (entry : List Char)
  | portSeparator (entry : List Char)
  | noHost (entry : List Char)
  | nonNumericPort (entry : List Char)
  | intLiteral (port : List Char)
  | portRange (entry : List Char) (port : ℕ)
deriving DecidableEq

/-- `EgressRejectedError`, by the reason its message gives. -/
inductive Rejected where
  | noHost
  | timeout (host : List Char)
  | unresolved (host : List Char)
  | noAddress (host : List Char)
  | notPublic (host : List Char) (address : Address)
deriving DecidableEq

/-- How a lookup fails: `asyncio.TimeoutError` or `OSError`. -/
inductive LookupError where
  | timeout
  | os
deriving DecidableEq

def strip (l : List Char) : List Char := Texts.trimChars Texts.isSpace l

section Grants

variable (U : Unicode)

/-- `_normalized_host`. -/
def normalizedHost (value : List Char) : List Char :=
  let host := U.lower ((strip value).rdropWhile (· = '.'))
  if host.head? = some '[' ∧ host.getLast? = some ']' then host.tail.dropLast else host

/-- `_split_host_port`. A text that is not bracketed has a port only after its one
colon. -/
def splitHostPort (entry : List Char) : Except GrantError (List Char × Option (List Char)) :=
  match strip entry with
  | '[' :: rest =>
    match rest.dropWhile (· ≠ ']') with
    | [] => .error (.unclosedBracket entry)
    | _ :: [] => .ok (rest.takeWhile (· ≠ ']'), none)
    | _ :: ':' :: port => .ok (rest.takeWhile (· ≠ ']'), some port)
    | _ :: _ :: _ => .error (.portSeparator entry)
  | value =>
    match value.splitOn ':' with
    | [host, port] => .ok (host, some port)
    | _ => .ok (value, none)

/-- `int` on a text of digits: decimal digits only, and at most 4300 of them. -/
def int (l : List Char) : Except GrantError ℕ :=
  match l.mapM U.decimal with
  | some digits =>
    if 4300 < l.length then .error (.intLiteral l)
    else .ok (digits.foldl (fun n d => 10 * n + d) 0)
  | none => .error (.intLiteral l)

/-- The port of a grant, from the text after the colon. -/
def readPort (text : List Char) : Option (List Char) → Except GrantError (Option ℕ)
  | none => .ok none
  | some portText =>
    if portText = [] ∨ portText.all U.isdigit = false then .error (.nonNumericPort text)
    else do
      let port ← int U portText
      if 1 ≤ port ∧ port ≤ 65535 then .ok (some port) else .error (.portRange text port)

/-- The grant of a normalised host: a network unless the text is a name or a single
address, which are granted by name. -/
def grantOf (host : List Char) (port : Option ℕ) : Grant :=
  match ipNetwork host with
  | none => { host := some host, port, network := none }
  | some network =>
    if network.prefixlen = network.maxPrefixlen then
      { host := some network.networkAddress.text, port, network := none }
    else { host := none, port, network := some network }

/-- One turn of the loop of `from_destinations`, on a stripped text that is not empty. -/
def readGrant (text : List Char) : Except GrantError Grant := do
  let (hostText, portText) ← splitHostPort text
  let host := normalizedHost U hostText
  if host = [] then .error (.noHost text)
  else
    let port ← readPort U text portText
    .ok (grantOf host port)

/-- The texts of the entries that are not blank. -/
def entryTexts (entries : List (List Char)) : List (List Char) :=
  (entries.map strip).filter (· ≠ [])

/-- `EgressPolicy.from_destinations`: the grants, in order. -/
def fromDestinations (entries : List (List Char)) : Except GrantError (List Grant) :=
  (entryTexts entries).mapM (readGrant U)

/-- `EgressPolicy.trusts_host`. -/
def trustsHost (grants : List Grant) (host : List Char) (port : ℕ) : Bool :=
  grants.any fun g =>
    decide (g.host = some (normalizedHost U host)) &&
      (decide (g.port = none) || decide (g.port = some port))

/-- `EgressPolicy.trusts_address`. -/
def trustsAddress (grants : List Grant) (address : Address) : Bool :=
  grants.any fun g =>
    match g.network with
    | some network => network.contains address
    | none => false

/-- The addresses of the answers, without scope and each once. -/
def answerAddresses (answers : List Address) : List Address :=
  answers.foldl
    (fun addresses answer =>
      if answer.unscoped ∈ addresses then addresses else addresses ++ [answer.unscoped]) []

/-- `resolved_dial_addresses`, the resolver a parameter. -/
def resolvedDialAddresses (grants : List Grant)
    (lookup : List Char → ℕ → Except LookupError (List Address)) (host : List Char)
    (port : ℕ) : Except Rejected (List Address) :=
  let name := normalizedHost U host
  if name = [] then .error .noHost
  else
    match lookup name port with
    | .error .timeout => .error (.timeout name)
    | .error .os => .error (.unresolved name)
    | .ok answers =>
      let addresses := answerAddresses answers
      if addresses = [] then .error (.noAddress name)
      else if trustsHost U grants name port then .ok addresses
      else
        match addresses.find? (fun a => !(a.isGlobal || trustsAddress grants a)) with
        | some a => .error (.notPublic name a)
        | none => .ok addresses

end Grants

/-! What a text states -/

section Reading

variable {U : Unicode}

/-- The host text and the port text of a grant: a bare host, a host and its port, and
the bracketed forms of both. -/
inductive Written : List Char → List Char → Option (List Char) → Prop
  | host {text} : text.head? ≠ some '[' → text.count ':' ≠ 1 → Written text text none
  | hostPort {host port} : host.head? ≠ some '[' → ':' ∉ host → ':' ∉ port →
      Written (host ++ ':' :: port) host (some port)
  | bracketed {host} : ']' ∉ host → Written ('[' :: (host ++ [']'])) host none
  | bracketedPort {host port} : ']' ∉ host →
      Written ('[' :: (host ++ ']' :: ':' :: port)) host (some port)

variable (U) in
/-- A host text names a host: itself in normal form, or the address it writes. -/
def Names (host name : List Char) : Prop :=
  name = normalizedHost U host ∨
    ∃ base, WritesNetwork (normalizedHost U host) base base.maxPrefixlen ∧ name = base.text

variable (U) in
/-- A text states that a name or an address may be dialed on a port. -/
def Stated (text name : List Char) (port : ℕ) (a : Address) : Prop :=
  ∃ host portText, Written text host portText ∧
    (∀ t ∈ portText, int U t = .ok port) ∧
    (Names U host name ∨ ∃ base p, WritesNetwork (normalizedHost U host) base p ∧ AgreeOn p a base)

def Grant.OpenOn (g : Grant) (port : ℕ) : Prop := g.port = none ∨ g.port = some port

/-- A grant covers a name or an address on a port. -/
def Grant.Admits (g : Grant) (name : List Char) (port : ℕ) (a : Address) : Prop :=
  g.OpenOn port ∧ (g.host = some name ∨ ∃ n, g.network = some n ∧ n.contains a = true)

theorem strip_strip (l : List Char) : strip (strip l) = strip l :=
  Texts.trimChars_eq_self_iff.mpr (Texts.trimmed_trimChars _ _)

theorem length_splitOn (c : Char) (l : List Char) : (l.splitOn c).length = l.count c + 1 := by
  induction l with
  | nil => rfl
  | cons d l ih =>
    rw [List.splitOn_cons_eq_if_modifyHead]
    by_cases h : d = c
    · simp [h, ih]
    · simp [h, ih]

theorem written_of_splitHostPort {text host : List Char} {portText : Option (List Char)}
    (htext : strip text = text) (h : splitHostPort text = .ok (host, portText)) :
    Written text host portText := by
  unfold splitHostPort at h
  rw [htext] at h
  split at h
  · rename_i rest
    have hclosed : ']' ∉ rest.takeWhile (· ≠ ']') := by
      intro hmem
      simpa using List.mem_takeWhile_imp hmem
    have hrest := List.takeWhile_append_dropWhile (p := (· ≠ ']')) (l := rest)
    have hbracket : ∀ c tail, rest.dropWhile (· ≠ ']') = c :: tail → c = ']' := by
      intro c tail hdrop
      have hhead := List.head?_dropWhile_not (· ≠ ']') rest
      rw [hdrop] at hhead
      simpa using hhead
    split at h
    · cases h
    · rename_i c hdrop
      cases h
      rw [hdrop, hbracket _ _ hdrop] at hrest
      have hwritten := Written.bracketed hclosed
      rwa [hrest] at hwritten
    · rename_i c port hdrop
      cases h
      rw [hdrop, hbracket _ _ hdrop] at hrest
      have hwritten := @Written.bracketedPort _ port hclosed
      rwa [hrest] at hwritten
    · cases h
  · rename_i value hvalue
    have hhead : text.head? ≠ some '[' := by
      intro hopen
      cases text with
      | nil => simp at hopen
      | cons c rest =>
        obtain rfl : c = '[' := by simpa using hopen
        exact hvalue rest rfl
    have hjoin : [':'].intercalate (text.splitOn ':') = text := List.intercalate_splitOn ':'
    split at h
    · rename_i first last hsplit
      cases h
      have hcount := length_splitOn ':' text
      rw [hsplit] at hjoin hcount
      have htext' : host ++ ':' :: last = text := by simpa [List.intercalate] using hjoin
      rw [← htext', List.count_append, List.count_cons_self] at hcount
      simp only [List.length_cons, List.length_nil] at hcount
      have hopen : host.head? ≠ some '[' := by
        intro hopen
        rw [← htext'] at hhead
        exact hhead (by simp [hopen])
      rw [← htext']
      exact .hostPort hopen (List.count_eq_zero.mp (by omega)) (List.count_eq_zero.mp (by omega))
    · rename_i hsplit
      cases h
      refine .host hhead ?_
      intro hone
      have hlength := length_splitOn ':' text
      rw [hone] at hlength
      obtain ⟨first, last, hpair⟩ := List.length_eq_two.mp hlength
      exact hsplit first last hpair

theorem readPort_eq_ok {text : List Char} {portText : Option (List Char)} {port : Option ℕ}
    (h : readPort U text portText = .ok port) :
    (portText = none ∧ port = none) ∨
      ∃ t n, portText = some t ∧ port = some n ∧ int U t = .ok n := by
  cases portText with
  | none =>
    cases h
    exact .inl ⟨rfl, rfl⟩
  | some t =>
    simp only [readPort] at h
    split at h
    · cases h
    · cases hint : int U t with
      | error e =>
        rw [hint] at h
        cases h
      | ok n =>
        rw [hint] at h
        simp only [bind, Except.bind] at h
        split at h
        · cases h
          exact .inr ⟨t, n, rfl, rfl, hint⟩
        · cases h

/-- The grant of a host text covers only what the text writes. -/
theorem grantOf_covers {host : List Char} {port : Option ℕ} {name : List Char} {a : Address}
    (h : (grantOf (normalizedHost U host) port).host = some name ∨
      ∃ n, (grantOf (normalizedHost U host) port).network = some n ∧ n.contains a = true) :
    Names U host name ∨
      ∃ base p, WritesNetwork (normalizedHost U host) base p ∧ AgreeOn p a base := by
  unfold grantOf at h
  split at h
  · rcases h with h | ⟨n, h, -⟩
    · exact .inl (.inl (Option.some.inj h).symm)
    · cases h
  · rename_i network hnetwork
    obtain ⟨base, p, hwrites, rfl⟩ := writesNetwork_of_ipNetwork hnetwork
    split at h
    · rename_i hfull
      rw [network_prefixlen, network_maxPrefixlen] at hfull
      rcases h with h | ⟨n, h, -⟩
      · subst hfull
        rw [networkAddress_full] at h
        exact .inl (.inr ⟨base, hwrites, (Option.some.inj h).symm⟩)
      · cases h
    · rcases h with h | ⟨n, h, hcontains⟩
      · cases h
      · cases h
        exact .inr ⟨base, p, hwrites, (contains_network_iff a base p).mp hcontains⟩

@[simp]
theorem grantOf_port (host : List Char) (port : Option ℕ) : (grantOf host port).port = port := by
  unfold grantOf
  split
  · rfl
  · split <;> rfl

/-- A grant is never broader than its text. -/
theorem stated_of_readGrant {text : List Char} {g : Grant} (htext : strip text = text)
    (h : readGrant U text = .ok g) (name : List Char) (port : ℕ) (a : Address)
    (hadmits : g.Admits name port a) : Stated U text name port a := by
  unfold readGrant at h
  cases hsplit : splitHostPort text with
  | error e =>
    rw [hsplit] at h
    cases h
  | ok pair =>
    obtain ⟨host, portText⟩ := pair
    rw [hsplit] at h
    simp only [bind, Except.bind] at h
    split at h
    · cases h
    · cases hport : readPort U text portText with
      | error e =>
        rw [hport] at h
        cases h
      | ok given =>
        rw [hport] at h
        cases h
        obtain ⟨hopen, hcovers⟩ := hadmits
        refine ⟨host, portText, written_of_splitHostPort htext hsplit, ?_, grantOf_covers hcovers⟩
        intro t ht
        rw [Grant.OpenOn, grantOf_port] at hopen
        rcases readPort_eq_ok hport with ⟨hnone, -⟩ | ⟨t', n, hsome, hn, hint⟩
        · rw [hnone] at ht
          cases ht
        · rw [hsome] at ht
          cases ht
          rw [hn] at hopen
          rcases hopen with hopen | hopen
          · cases hopen
          · cases hopen
            exact hint

/-- The grants of a policy, each no broader than the text of its entry. -/
theorem stated_of_fromDestinations {entries : List (List Char)} {grants : List Grant}
    (h : fromDestinations U entries = .ok grants) :
    List.Forall₂ (fun text g => ∀ name port a, g.Admits name port a → Stated U text name port a)
      (entryTexts entries) grants := by
  have hstripped : ∀ text ∈ entryTexts entries, strip text = text := by
    intro text htext
    obtain ⟨entry, -, rfl⟩ := List.mem_map.mp (List.mem_filter.mp htext).1
    exact strip_strip entry
  rw [fromDestinations] at h
  generalize entryTexts entries = texts at h hstripped ⊢
  induction texts generalizing grants with
  | nil =>
    cases h
    exact .nil
  | cons text texts ih =>
    rw [List.mapM_cons] at h
    cases hread : readGrant U text with
    | error e =>
      rw [hread] at h
      cases h
    | ok g =>
      rw [hread] at h
      cases hrest : texts.mapM (readGrant U) with
      | error e =>
        rw [hrest] at h
        cases h
      | ok rest =>
        rw [hrest] at h
        cases h
        refine .cons (stated_of_readGrant (hstripped text List.mem_cons_self) hread) (ih hrest ?_)
        exact fun t ht => hstripped t (List.mem_cons_of_mem _ ht)

end Reading

/-! What may be dialed -/

section Dialing

variable (U : Unicode)

/-- A host grant covers the name on the port. -/
def HostGranted (grants : List Grant) (name : List Char) (port : ℕ) : Prop :=
  ∃ g ∈ grants, g.host = some (normalizedHost U name) ∧ g.OpenOn port

def InGrantedNetwork (grants : List Grant) (a : Address) : Prop :=
  ∃ g ∈ grants, ∃ n, g.network = some n ∧ n.contains a = true

/-- A granted network open on the port holds the address. -/
def NetworkGranted (grants : List Grant) (a : Address) (port : ℕ) : Prop :=
  ∃ g ∈ grants, ∃ n, g.network = some n ∧ n.contains a = true ∧ g.OpenOn port

/-- The answers for a name may be dialed on a port. -/
def Permitted (grants : List Grant) (name : List Char) (port : ℕ) (answers : List Address) : Prop :=
  HostGranted U grants name port ∨ ∀ a ∈ answers, a.isGlobal = true ∨ NetworkGranted grants a port

/-- Whatever the resolver answers, only permitted answers are dialed, and answers that
are not permitted are rejected. -/
structure Safe (grants : List Grant) (host : List Char) (port : ℕ) : Prop where
  dials : ∀ lookup addresses,
    resolvedDialAddresses U grants lookup host port = .ok addresses →
      ∃ answers, lookup (normalizedHost U host) port = .ok answers ∧
        addresses = answerAddresses answers ∧
        Permitted U grants (normalizedHost U host) port answers
  rejects : ∀ lookup answers, lookup (normalizedHost U host) port = .ok answers →
    ¬ Permitted U grants (normalizedHost U host) port answers →
      ∃ why, resolvedDialAddresses U grants lookup host port = .error why

/-- A policy as its entries state it, and safe for a host and a port. -/
structure Upholds (entries : List (List Char)) (grants : List Grant) (host : List Char)
    (port : ℕ) : Prop where
  safe : Safe U grants host port
  stated : List.Forall₂
    (fun text g => ∀ name port a, g.Admits name port a → Stated U text name port a)
    (entryTexts entries) grants

variable {U} {grants : List Grant} {host : List Char} {port : ℕ}

theorem trustsHost_iff {name : List Char} :
    trustsHost U grants name port = true ↔ HostGranted U grants name port := by
  simp [trustsHost, HostGranted, Grant.OpenOn]

theorem trustsAddress_iff {a : Address} :
    trustsAddress grants a = true ↔ InGrantedNetwork grants a := by
  simp only [trustsAddress, InGrantedNetwork, List.any_eq_true]
  constructor
  · rintro ⟨g, hg, h⟩
    split at h
    · rename_i n hn
      exact ⟨g, hg, n, hn, h⟩
    · cases h
  · rintro ⟨g, hg, n, hn, h⟩
    refine ⟨g, hg, ?_⟩
    rw [hn]
    exact h

theorem inGrantedNetwork_unscoped {a : Address} :
    InGrantedNetwork grants a.unscoped ↔ InGrantedNetwork grants a := by
  simp [InGrantedNetwork]

theorem mem_answerAddresses {answers : List Address} {a : Address} :
    a ∈ answerAddresses answers ↔ ∃ b ∈ answers, b.unscoped = a := by
  have hfold : ∀ (answers found : List Address),
      a ∈ answers.foldl (fun addresses answer =>
        if answer.unscoped ∈ addresses then addresses else addresses ++ [answer.unscoped]) found ↔
        a ∈ found ∨ ∃ b ∈ answers, b.unscoped = a := by
    intro answers
    induction answers with
    | nil => simp
    | cons b answers ih =>
      intro found
      rw [List.foldl_cons, ih]
      by_cases hb : b.unscoped ∈ found
      · rw [if_pos hb]
        constructor
        · rintro (h | ⟨c, hc, h⟩)
          · exact .inl h
          · exact .inr ⟨c, List.mem_cons_of_mem _ hc, h⟩
        · rintro (h | ⟨c, hc, h⟩)
          · exact .inl h
          · rcases List.mem_cons.mp hc with rfl | hc
            · exact .inl (h ▸ hb)
            · exact .inr ⟨c, hc, h⟩
      · rw [if_neg hb]
        simp [or_assoc, eq_comm]
  simpa [answerAddresses] using hfold answers []

/-- What the decision comes to once the name has resolved. -/
theorem resolvedDialAddresses_eq_ok_iff
    {lookup : List Char → ℕ → Except LookupError (List Address)} {addresses : List Address} :
    resolvedDialAddresses U grants lookup host port = .ok addresses ↔
      normalizedHost U host ≠ [] ∧
        ∃ answers, lookup (normalizedHost U host) port = .ok answers ∧
          addresses = answerAddresses answers ∧ addresses ≠ [] ∧
          (HostGranted U grants (normalizedHost U host) port ∨
            ∀ a ∈ answers, a.isGlobal = true ∨ InGrantedNetwork grants a) := by
  have hall : ∀ answers : List Address,
      (answerAddresses answers).find? (fun a => !(a.isGlobal || trustsAddress grants a)) = none ↔
        ∀ a ∈ answers, a.isGlobal = true ∨ InGrantedNetwork grants a := by
    intro answers
    simp only [List.find?_eq_none, mem_answerAddresses, Bool.not_eq_true', Bool.not_eq_false,
      Bool.or_eq_true, trustsAddress_iff]
    constructor
    · intro h a ha
      simpa only [isGlobal_unscoped, inGrantedNetwork_unscoped] using h a.unscoped ⟨a, ha, rfl⟩
    · rintro h _ ⟨a, ha, rfl⟩
      simpa only [isGlobal_unscoped, inGrantedNetwork_unscoped] using h a ha
  unfold resolvedDialAddresses
  by_cases hname : normalizedHost U host = []
  · simp [hname]
  rw [if_neg hname]
  cases hlookup : lookup (normalizedHost U host) port with
  | error e => cases e <;> simp
  | ok answers =>
    simp only [Except.ok.injEq, exists_eq_left', hname, ne_eq, not_false_eq_true, true_and]
    by_cases hempty : answerAddresses answers = []
    · rw [if_pos hempty]
      constructor
      · intro h
        cases h
      · rintro ⟨rfl, hne, -⟩
        exact absurd hempty hne
    rw [if_neg hempty]
    by_cases htrust : HostGranted U grants (normalizedHost U host) port
    · rw [if_pos (trustsHost_iff.mpr htrust)]
      simp only [Except.ok.injEq, htrust, true_or, and_true]
      constructor
      · rintro rfl
        exact ⟨rfl, hempty⟩
      · rintro ⟨rfl, -⟩
        rfl
    rw [if_neg (fun h => htrust (trustsHost_iff.mp h))]
    simp only [htrust, false_or]
    rw [← hall answers]
    split
    · rename_i a hfind
      constructor
      · intro h
        cases h
      · rintro ⟨-, -, hnone⟩
        rw [hfind] at hnone
        cases hnone
    · rename_i hfind
      simp only [Except.ok.injEq, hfind, and_true]
      constructor
      · rintro rfl
        exact ⟨rfl, hempty⟩
      · rintro ⟨rfl, -⟩
        rfl

/-- The policy dials only what its grants open exactly when the port of a network grant
makes no difference: the host has no name, or is granted, or every address of a granted
network that is not global lies in a granted network open on the port dialed. -/
theorem egress_upheld_iff {entries : List (List Char)}
    (h : fromDestinations U entries = .ok grants) (host : List Char) (port : ℕ) :
    Upholds U entries grants host port ↔
      normalizedHost U host = [] ∨ HostGranted U grants (normalizedHost U host) port ∨
        ∀ a : Address, a.isGlobal = false → InGrantedNetwork grants a →
          NetworkGranted grants a port := by
  constructor
  · rintro ⟨⟨hdials, -⟩, -⟩
    by_cases hname : normalizedHost U host = []
    · exact .inl hname
    by_cases htrust : HostGranted U grants (normalizedHost U host) port
    · exact .inr (.inl htrust)
    refine .inr (.inr ?_)
    intro a hlocal hnetwork
    -- a resolver that answers with the one address
    have hdialed : resolvedDialAddresses U grants (fun _ _ => .ok [a]) host port =
        .ok (answerAddresses [a]) := resolvedDialAddresses_eq_ok_iff.mpr
      ⟨hname, [a], rfl, rfl, by simp [answerAddresses], .inr (by simp [hnetwork])⟩
    obtain ⟨answers, hanswers, -, hpermitted⟩ := hdials _ _ hdialed
    cases hanswers
    rcases hpermitted with hgranted | hgranted
    · exact absurd hgranted htrust
    · rcases hgranted a List.mem_cons_self with hglobal | hgranted
      · rw [hlocal] at hglobal
        cases hglobal
      · exact hgranted
  · intro hcondition
    have hdials : ∀ lookup addresses,
        resolvedDialAddresses U grants lookup host port = .ok addresses →
          ∃ answers, lookup (normalizedHost U host) port = .ok answers ∧
            addresses = answerAddresses answers ∧
            Permitted U grants (normalizedHost U host) port answers := by
      intro lookup addresses hok
      obtain ⟨hname, answers, hlookup, haddresses, -, hdecided⟩ :=
        resolvedDialAddresses_eq_ok_iff.mp hok
      refine ⟨answers, hlookup, haddresses, ?_⟩
      rcases hcondition with hempty | htrust | hcondition
      · exact absurd hempty hname
      · exact .inl htrust
      · rcases hdecided with htrust | hall
        · exact .inl htrust
        · refine .inr ?_
          intro a ha
          cases hglobal : a.isGlobal with
          | true => exact .inl rfl
          | false =>
            have hin := (hall a ha).resolve_left (by simp [hglobal])
            exact .inr (hcondition a hglobal hin)
    refine ⟨⟨hdials, ?_⟩, stated_of_fromDestinations h⟩
    intro lookup answers hlookup hnot
    cases hresult : resolvedDialAddresses U grants lookup host port with
    | error why => exact ⟨why, rfl⟩
    | ok addresses =>
      obtain ⟨answers', hlookup', -, hpermitted⟩ := hdials lookup addresses hresult
      rw [hlookup] at hlookup'
      cases hlookup'
      exact absurd hpermitted hnot

end Dialing

/-- Unicode on ASCII texts. -/
def ascii : Unicode where
  lower := List.map Char.toLower
  isdigit := Char.isDigit
  decimal := fun c => if c.isDigit then some (c.toNat - 48) else none

theorem private_network_upheld :
    fromDestinations ascii ["10.0.0.0/8".toList] =
        .ok [{ host := none, port := none, network := some (.v4 0x0a000000 8) }] ∧
      Upholds ascii ["10.0.0.0/8".toList]
        [{ host := none, port := none, network := some (.v4 0x0a000000 8) }]
        "db.example".toList 5432 := by
  have hgrants : fromDestinations ascii ["10.0.0.0/8".toList] =
      .ok [{ host := none, port := none, network := some (.v4 0x0a000000 8) }] := by decide
  refine ⟨hgrants, (egress_upheld_iff hgrants _ _).mpr (.inr (.inr ?_))⟩
  rintro a - ⟨g, hg, n, hn, hcontains⟩
  refine ⟨g, hg, n, hn, hcontains, .inl ?_⟩
  rw [List.mem_singleton.mp hg]

/-- A network granted on the port of a database is dialed on the port of a shell. -/
theorem network_port_ignored :
    ¬ ∀ (U : Unicode) (entries : List (List Char)) (grants : List Grant),
      fromDestinations U entries = .ok grants →
        ∀ host port, Upholds U entries grants host port := by
  intro h
  have hgrants : fromDestinations ascii ["10.0.0.0/8:5432".toList] =
      .ok [{ host := none, port := some 5432, network := some (.v4 0x0a000000 8) }] := by decide
  obtain ⟨⟨hdials, -⟩, -⟩ := h ascii _ _ hgrants "db.example".toList 22
  obtain ⟨answers, hanswers, -, hpermitted⟩ :=
    hdials (fun _ _ => .ok [.v4 0x0a000001]) [.v4 0x0a000001] (by decide)
  cases hanswers
  rcases hpermitted with ⟨g, hg, hhost, -⟩ | hall
  · rw [List.mem_singleton.mp hg] at hhost
    cases hhost
  · rcases hall (.v4 0x0a000001) List.mem_cons_self with hglobal | ⟨g, hg, n, -, -, hopen⟩
    · exact absurd hglobal (by decide)
    · rw [List.mem_singleton.mp hg] at hopen
      rcases hopen with hopen | hopen
      · cases hopen
      · exact absurd hopen (by decide)

end Grafy.Egress
