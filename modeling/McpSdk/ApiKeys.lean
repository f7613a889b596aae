import McpSdk.SecurityGate

/-!
# API keys

`with_api_key` takes a list of keys and the name of the header they come in. The transports look
into the header `X-API-Key` whatever the name is, and hand the empty text to `check_request` where
a request has no key; the shard looks for what it is handed in the list. So requests are told
apart by their keys if the list is empty, or if it has no empty key and the name is that one.
-/

namespace McpSdk.ApiKeys
open CppStandardLibrary

/-- A header name as the HTTP library compares it. -/
def lower (name : Str) : Str := name.map Char.toLower

/-- The configuration of a server with these keys. -/
def withApiKey (cfg : McpServerConfig) (keys : List Str) (header : Str) : McpServerConfig :=
  { cfg with
    security := cfg.security.withApiKey keys header
    built := cfg.built }

/-- What `check_request` answers to the request. -/
def answer (cfg : McpServerConfig) (now : Int) (s : McpShard) (req : Request) :
    SecurityCheckResult :=
  (s.checkRequest cfg now (getClientIp req) (getApiKey req)).1

/-- The request carries the text as a credential, in the header or as a bearer token. -/
def Carries (header : Str) (req : Request) (text : Str) : Prop :=
  text ≠ [] ∧ (req.header (lower header) = text ∨
    req.header "authorization".toList = "Bearer ".toList ++ text)

/-- Nothing that could be a credential is there but in the header. -/
def NoOther (header : Str) (req : Request) : Prop :=
  ∀ name, name = "x-api-key".toList ∨ name = "authorization".toList → name ≠ lower header →
    req.header name = []

/-- The keys and the header do what they are for, on every server with an IP filter that allows
the client. -/
structure Authenticates (keys : List Str) (header : Str) : Prop where
  sound : ∀ (cfg : McpServerConfig) now s req, cfg.ipFilter.isAllowed (getClientIp req) →
    answer (withApiKey cfg keys header) now s req ≠ .unauthorized →
      ∃ key ∈ keys, Carries header req key
  refuses : ∀ (cfg : McpServerConfig) now s req, cfg.ipFilter.isAllowed (getClientIp req) →
    NoOther header req → req.header (lower header) = [] →
      answer (withApiKey cfg keys header) now s req = .unauthorized
  accepts : ∀ (cfg : McpServerConfig) now s req, cfg.ipFilter.isAllowed (getClientIp req) →
    NoOther header req → req.header (lower header) ≠ [] → req.header (lower header) ∈ keys →
      answer (withApiKey cfg keys header) now s req ≠ .unauthorized

theorem answer_eq_unauthorized_iff {cfg : McpServerConfig} {keys : List Str} {header : Str}
    {now : Int} {s : McpShard} {req : Request} (h : cfg.ipFilter.isAllowed (getClientIp req)) :
    answer (withApiKey cfg keys header) now s req = .unauthorized ↔ getApiKey req ∉ keys := by
  have hrefusal : McpShard.refusal (withApiKey cfg keys header) (getClientIp req) (getApiKey req) =
      if getApiKey req ∈ keys then none else some .unauthorized := by
    unfold McpShard.refusal withApiKey
    simp [h, SecurityPolicy.withApiKey]
  unfold answer McpShard.checkRequest
  rw [hrefusal]
  by_cases hkey : getApiKey req ∈ keys
  · rw [if_pos hkey]
    refine iff_of_false ?_ (not_not_intro hkey)
    dsimp only
    split
    · exact nofun
    · split <;> exact nofun
  · rw [if_neg hkey]
    exact iff_of_true rfl hkey

theorem carries_getApiKey {req : Request} (h : getApiKey req ≠ []) :
    Carries "X-API-Key".toList req (getApiKey req) := by
  refine ⟨h, ?_⟩
  unfold getApiKey at h ⊢
  dsimp only at h ⊢
  split
  · exact .inl rfl
  · split
    · rename_i hbearer
      simp only [Bool.and_eq_true, decide_eq_true_eq, beq_iff_eq] at hbearer
      refine .inr ?_
      rw [← hbearer.2]
      exact (List.take_append_drop 7 _).symm
    · rename_i hkey hbearer
      rw [if_neg hkey, if_neg hbearer] at h
      exact absurd rfl h

theorem getApiKey_eq_nil {req : Request} (hkey : req.header "x-api-key".toList = [])
    (hauth : req.header "authorization".toList = []) : getApiKey req = [] := by
  simp [getApiKey, hkey, hauth, -String.reduceToList]

theorem getApiKey_eq_header {req : Request} (h : req.header "x-api-key".toList ≠ []) :
    getApiKey req = req.header "x-api-key".toList := by
  simp [getApiKey, h, -String.reduceToList]

theorem isAllowed_standard (ip : Str) : McpServerConfig.standard.ipFilter.isAllowed ip := by
  have hblack : McpServerConfig.standard.ipFilter.blacklist = [] := rfl
  have hwhite : McpServerConfig.standard.ipFilter.whitelist = [] := rfl
  have hallow : McpServerConfig.standard.ipFilter.defaultAllow = true := rfl
  unfold IpFilter.isAllowed
  simp only [hblack, hwhite, hallow, List.any_nil, List.isEmpty_nil, Bool.not_true,
    Bool.false_eq_true, if_false, ite_self]

/-- The request that carries nothing but the key, in the header. -/
def request (header key : Str) : Request where
  header name := if name = lower header then key else []

theorem noOther_request (header key : Str) : NoOther header (request header key) :=
  fun _ _ hname => if_neg hname

theorem length_getApiKey_request {header key : Str} (hheader : lower header ≠ "x-api-key".toList)
    (hkey : key ≠ []) : (getApiKey (request header key)).length < key.length := by
  have hmissing : (request header key).header "x-api-key".toList = [] := if_neg (Ne.symm hheader)
  have hpos : 0 < key.length := List.length_pos_iff.mpr hkey
  unfold getApiKey
  simp only [hmissing, List.isEmpty_nil, Bool.not_true, Bool.false_eq_true, if_false]
  by_cases hauth : "authorization".toList = lower header
  · have hsame : (request header key).header "authorization".toList = key := if_pos hauth
    rw [hsame]
    split
    · rw [List.length_drop]
      omega
    · exact hpos
  · have hother : (request header key).header "authorization".toList = [] := if_neg hauth
    rw [hother]
    simpa using hpos

theorem exists_lost {keys : List Str} {header : Str} (hheader : lower header ≠ "x-api-key".toList)
    (hempty : [] ∉ keys) (hkeys : keys ≠ []) :
    ∃ key ∈ keys, getApiKey (request header key) ∉ keys := by
  by_contra hnone
  push Not at hnone
  -- among the keys that are read as keys of the list, a shorter one is always left
  have hlost : ∀ n, ∀ key ∈ keys, key.length = n → False := by
    intro n
    induction n using Nat.strongRecOn with
    | ind n ih =>
      rintro key hkey rfl
      have hne : key ≠ [] := fun h => hempty (h ▸ hkey)
      exact ih _ (length_getApiKey_request hheader hne) _ (hnone key hkey) rfl
  obtain ⟨key, rest, rfl⟩ := List.exists_cons_of_ne_nil hkeys
  exact hlost _ key (.head _) rfl

/-- Keys and header do what they are for if there are no keys, or if none is empty and the header
is `X-API-Key`. -/
theorem authenticates_iff (keys : List Str) (header : Str) : Authenticates keys header ↔
    keys = [] ∨ [] ∉ keys ∧ lower header = "x-api-key".toList := by
  constructor
  · intro h
    by_cases hkeys : keys = []
    · exact .inl hkeys
    · refine .inr ?_
      have hempty : [] ∉ keys := by
        have hrefused := h.refuses .standard 0 {} {} (isAllowed_standard _) (fun _ _ _ => rfl) rfl
        rwa [answer_eq_unauthorized_iff (isAllowed_standard _)] at hrefused
      refine ⟨hempty, ?_⟩
      by_contra hheader
      obtain ⟨key, hkey, hlost⟩ := exists_lost hheader hempty hkeys
      have hself : (request header key).header (lower header) = key := if_pos rfl
      have haccepted := h.accepts .standard 0 {} (request header key) (isAllowed_standard _)
        (noOther_request header key) (by rw [hself]; exact fun hnil => hempty (hnil ▸ hkey))
        (by rwa [hself])
      exact haccepted ((answer_eq_unauthorized_iff (isAllowed_standard _)).mpr hlost)
  · intro h
    refine ⟨?_, ?_, ?_⟩
    · intro cfg now s req hip hpasses
      have hlisted : getApiKey req ∈ keys := by
        rw [ne_eq, answer_eq_unauthorized_iff hip, not_not] at hpasses
        exact hpasses
      rcases h with rfl | ⟨hempty, hheader⟩
      · cases hlisted
      · have hkey : getApiKey req ≠ [] := fun hnil => hempty (hnil ▸ hlisted)
        obtain ⟨hne, hplace⟩ := carries_getApiKey hkey
        exact ⟨_, hlisted, hne, by rwa [hheader]⟩
    · intro cfg now s req hip hother hnone
      rw [answer_eq_unauthorized_iff hip]
      rcases h with rfl | ⟨hempty, hheader⟩
      · exact List.not_mem_nil
      · have hauth := hother "authorization".toList (.inr rfl) (by rw [hheader]; decide)
        rw [getApiKey_eq_nil (hheader ▸ hnone) hauth]
        exact hempty
    · intro cfg now s req hip hother hsome hlisted
      rw [ne_eq, answer_eq_unauthorized_iff hip, not_not]
      rcases h with rfl | ⟨hempty, hheader⟩
      · cases hlisted
      · rw [hheader] at hsome hlisted
        rwa [getApiKey_eq_header hsome]

/-- With the header `X-Token` a request that carries the key there is refused. -/
theorem refuses_key_in_other_header :
    ¬Authenticates ["my-token".toList] "X-Token".toList ∧
      answer (withApiKey .standard ["my-token".toList] "X-Token".toList) 0 {}
        (request "X-Token".toList "my-token".toList) = .unauthorized := by
  refine ⟨fun h => ?_, by decide⟩
  have haccepted := h.accepts .standard 0 {} (request "X-Token".toList "my-token".toList)
    (isAllowed_standard _) (noOther_request _ _) (by decide) (by decide)
  exact haccepted (by decide)

end McpSdk.ApiKeys
