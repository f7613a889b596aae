import McpSdk.CompactJson
import McpSdk.RegistryLists
import McpSdk.TaskOutcomes

/-!
# Reading what is listed

The entries of `resources/list` are the resources registered last under their uris. Asked for such
a uri, `resources/read` returns what the `read()` of that resource returns, with the mime type of
its definition. The uris of the built-in template are taken before the registry is asked.
-/

namespace McpSdk.ResourceReads
open CppStandardLibrary CooperativeTasks RegistryLists

/-- The registry after calls of `register_resource`, if there is room for them all. -/
def registerAll (rs : List McpResource) : Option McpRegistry :=
  rs.foldlM McpRegistry.registerResource {}

/-- The resource is the last one with its uri. -/
def LastOf (rs : List McpResource) (res : McpResource) : Prop :=
  ∃ before after, rs = before ++ res :: after ∧ ∀ r ∈ after, r.uri ≠ res.uri

/-- The result of `resources/read` with one content. -/
def oneContent (uri mimeType text : Str) : Json :=
  .ofMembers [("contents".toList, .array [.ofMembers [("uri".toList, .string uri),
    ("mimeType".toList, .string mimeType), ("text".toList, .string text)]])]

/-- `get_definition().value("mimeType", "text/plain")`. -/
def mimeTypeOf (res : McpResource) : Except Exception Str :=
  res.definition.valueString "mimeType".toList "text/plain".toList

def reading (res : McpResource) : Coroutine HandlerI Input Exception Json := do
  let text ← res.read.coAwait
  let mimeType ← Coroutine.ofExcept (mimeTypeOf res)
  return oneContent res.uri mimeType text

def Names (params : Json) (uri : Str) : Prop := params.find? "uri".toList = some (.string uri)

/-- Whatever happens while it runs, the handler may return a content for each text that the
`read()` of the resource may return, and nothing else. -/
def ReadsAs (handler : MethodHandler HandlerI) (res : McpResource) (mimeType : Str) : Prop :=
  ∀ {σ : Type} (S : Surroundings HandlerI σ), (∀ s, S.meanwhile s s) →
    ∀ params, Names params res.uri → ∀ j s result,
      (∃ s', (handler params).Ends S j s (.ok result) s') ↔
        ∃ text, (∃ s', res.read.Ends S j s (.ok text) s') ∧
          result = oneContent res.uri mimeType text

/-- Asked for the uri of the resource, the handler does not return. -/
def Refuses (handler : MethodHandler HandlerI) (res : McpResource) : Prop :=
  ∀ {σ : Type} (S : Surroundings HandlerI σ) (params : Json), Names params res.uri →
    ∀ j s result s', ¬(handler params).Ends S j s (.ok result) s'

theorem mimeType_of_oneContent {uri mimeType mimeType' text text' : Str}
    (h : oneContent uri mimeType text = oneContent uri mimeType' text') : mimeType = mimeType' := by
  have hmembers : Json.object [("contents".toList, .array [.object [("mimeType".toList,
        .string mimeType), ("text".toList, .string text), ("uri".toList, .string uri)]])] =
      .object [("contents".toList, .array [.object [("mimeType".toList, .string mimeType'),
        ("text".toList, .string text'), ("uri".toList, .string uri)]])] := h
  simp only [Json.object.injEq, List.cons.injEq, Prod.mk.injEq, Json.array.injEq,
    Json.string.injEq] at hmembers
  exact hmembers.1.2.1.1.2

section Registration
variable {rs : List McpResource} {registry : McpRegistry}

theorem registerResource_eq {res : McpResource} {registry' : McpRegistry}
    (h : registry.registerResource res = some registry') :
    registry'.resources.table = registry.resources.table.insert res.uri res := by
  obtain ⟨resources, hresources, rfl⟩ := Option.map_eq_some_iff.mp h
  unfold Registered.register at hresources
  split at hresources
  · exact (Option.some.inj hresources) ▸ rfl
  · cases hresources

theorem lastOf_append {res r : McpResource} :
    LastOf (rs ++ [r]) res ↔ res = r ∨ res.uri ≠ r.uri ∧ LastOf rs res := by
  constructor
  · rintro ⟨before, after, heq, hafter⟩
    induction after using List.reverseRecOn with
    | nil =>
      obtain ⟨-, hr⟩ := List.append_inj' heq rfl
      exact .inl (List.cons.inj hr).1.symm
    | append_singleton after r' _ =>
      rw [← List.cons_append, ← List.append_assoc] at heq
      obtain ⟨rfl, hr⟩ := List.append_inj' heq rfl
      obtain rfl := (List.cons.inj hr).1
      exact .inr ⟨(hafter r (by simp)).symm, before, after, rfl,
        fun r' hr' => hafter r' (List.mem_append_left _ hr')⟩
  · rintro (rfl | ⟨hne, before, after, rfl, hafter⟩)
    · exact ⟨rs, [], rfl, nofun⟩
    · refine ⟨before, after ++ [r], by simp, List.forall_mem_append.mpr ⟨hafter, ?_⟩⟩
      exact List.forall_mem_singleton.mpr hne.symm

theorem registerAll_append {r : McpResource} :
    registerAll (rs ++ [r]) = (registerAll rs).bind (·.registerResource r) := by
  simp [registerAll, List.foldlM_append]

theorem lookup_registerAll (h : registerAll rs = some registry) {uri : Str} {res : McpResource} :
    registry.resources.table.lookup uri = some res ↔ res.uri = uri ∧ LastOf rs res := by
  induction rs using List.reverseRecOn generalizing registry with
  | nil =>
    obtain rfl := Option.some.inj h
    refine iff_of_false nofun ?_
    rintro ⟨-, before, after, heq, -⟩
    cases before <;> cases heq
  | append_singleton rs r ih =>
    rw [registerAll_append] at h
    obtain ⟨old, hold, hregister⟩ := Option.bind_eq_some_iff.mp h
    rw [registerResource_eq hregister, lastOf_append]
    by_cases huri : uri = r.uri
    · subst huri
      rw [AList.lookup_insert, Option.some_inj]
      constructor
      · rintro rfl
        exact ⟨rfl, .inl rfl⟩
      · rintro ⟨heq, rfl | ⟨hne, -⟩⟩
        · rfl
        · exact absurd heq hne
    · rw [AList.lookup_insert_ne huri, ih hold]
      refine and_congr_right fun heq => ?_
      subst heq
      exact ⟨fun hlast => .inr ⟨huri, hlast⟩,
        fun hlast => hlast.elim (fun hr => absurd (congrArg McpResource.uri hr) huri) And.right⟩

theorem exists_lastOf {r : McpResource} (h : r ∈ rs) : ∃ res, LastOf rs res ∧ res.uri = r.uri := by
  induction rs using List.reverseRecOn with
  | nil => cases h
  | append_singleton rs r' ih =>
    simp only [lastOf_append]
    by_cases huri : r.uri = r'.uri
    · exact ⟨r', .inl rfl, huri.symm⟩
    · have hr : r ∈ rs := (List.mem_append.mp h).resolve_right
        (fun hr => huri (congrArg McpResource.uri (List.mem_singleton.mp hr)))
      obtain ⟨res, hlast, hres⟩ := ih hr
      exact ⟨res, .inr ⟨hres ▸ huri, hlast⟩, hres⟩

def listedResources (registry : McpRegistry) : List McpResource :=
  registry.resources.table.entries.map (·.2)

theorem mem_listedResources (h : registerAll rs = some registry) {res : McpResource} :
    res ∈ listedResources registry ↔ LastOf rs res := by
  constructor
  · intro hmem
    obtain ⟨entry, hentry, rfl⟩ := List.mem_map.mp hmem
    exact ((lookup_registerAll h).mp (AList.mem_lookup_iff.mpr hentry)).2
  · intro hlast
    have hlookup := (lookup_registerAll h).mpr ⟨rfl, hlast⟩
    exact List.mem_map.mpr ⟨⟨res.uri, res⟩, AList.mem_lookup_iff.mp hlookup, rfl⟩

theorem lookup_of_listed (h : registerAll rs = some registry) {res : McpResource}
    (hmem : res ∈ listedResources registry) :
    registry.resources.table.lookup res.uri = some res :=
  (lookup_registerAll h).mpr ⟨rfl, (mem_listedResources h).mp hmem⟩

theorem nodup_listedResources (h : registerAll rs = some registry) :
    ((listedResources registry).map (·.uri)).Nodup := by
  have hkeys : (listedResources registry).map (·.uri) = registry.resources.table.keys := by
    rw [listedResources, List.map_map]
    refine List.map_congr_left fun entry hentry => ?_
    exact ((lookup_registerAll h).mp (AList.mem_lookup_iff.mpr hentry)).1
  rw [hkeys]
  exact registry.resources.table.keys_nodup

end Registration

section Listing
variable {key k : Str} {v : Json}

theorem find?_insertMember (hk : k ≠ key) (members : List (Str × Json)) :
    (Json.object (Json.insertMember key v members)).find? k = (Json.object members).find? k := by
  induction members with
  | nil => simp [Json.find?, Json.insertMember, Ne.symm hk]
  | cons m ms ih =>
    unfold Json.insertMember
    simp only [Json.find?] at ih ⊢
    split
    · simp [Ne.symm hk]
    · split
      · rename_i heq
        simp [Ne.symm hk, ← heq]
      · by_cases hm : m.1 = k
        · simp [hm]
        · simpa [hm] using ih

theorem find?_assignIfSome {j j' : Json} {added : Option Json} (hj : j.isObject)
    (h : j.assignIfSome key added = .ok j') (hk : k ≠ key) :
    j'.isObject ∧ j'.find? k = j.find? k := by
  cases added with
  | none =>
    obtain rfl := Except.ok.inj h
    exact ⟨hj, rfl⟩
  | some v =>
    cases j with
    | object members =>
      obtain rfl := Except.ok.inj h
      exact ⟨rfl, find?_insertMember hk members⟩
    | _ => cases hj

theorem bind_eq_ok {x : Except Exception Json} {f : Json → Except Exception Json} {j : Json}
    (h : x >>= f = .ok j) : ∃ j', x = .ok j' ∧ f j' = .ok j := by
  cases x with
  | ok j' => exact ⟨j', rfl, h⟩
  | error e => cases h

theorem find?_listed {res : McpResource} {item : Json} (h : res.listed = .ok item) :
    item.find? "uri".toList = res.definition.find? "uri".toList := by
  obtain ⟨j₁, h₁, h⟩ := bind_eq_ok h
  obtain ⟨j₂, h₂, h⟩ := bind_eq_ok h
  obtain ⟨j₃, h₃, h⟩ := bind_eq_ok h
  obtain ⟨hobject₁, hfind₁⟩ :=
    find?_assignIfSome (k := "uri".toList) res.isObject h₁ (by decide)
  obtain ⟨hobject₂, hfind₂⟩ := find?_assignIfSome (k := "uri".toList) hobject₁ h₂ (by decide)
  obtain ⟨hobject₃, hfind₃⟩ := find?_assignIfSome (k := "uri".toList) hobject₂ h₃ (by decide)
  rw [(find?_assignIfSome hobject₃ h (by decide)).2, hfind₃, hfind₂, hfind₁]

end Listing

section Reading
variable {registry : McpRegistry} {res : McpResource} {params : Json}

theorem valueString_of_names {uri : Str} (h : Names params uri) :
    params.valueString "uri".toList [] = .ok uri := by
  cases params with
  | object members =>
    have hvalue : (Json.object members).value "uri".toList (.string []) = .ok (.string uri) := by
      rw [Json.value, h]
      rfl
    rw [Json.valueString, hvalue]
    rfl
  | _ => cases h

theorem resourcesRead_eq (hparams : Names params res.uri)
    (hlookup : registry.resources.table.lookup res.uri = some res)
    (hordinary : ¬metricsPrefix <+: res.uri) :
    resourcesRead registry params = (reading res).coAwait := by
  have hread : registry.readResource res.uri = reading res := by
    rw [McpRegistry.readResource, hlookup]
    rfl
  rw [← hread, resourcesRead, valueString_of_names hparams]
  exact if_neg (mt List.isPrefixOf_iff_prefix.mp hordinary)

theorem readsAs_resourcesRead (hlookup : registry.resources.table.lookup res.uri = some res)
    (hordinary : ¬metricsPrefix <+: res.uri) {mimeType : Str}
    (hmime : mimeTypeOf res = .ok mimeType) : ReadsAs (resourcesRead registry) res mimeType := by
  intro σ S hmean params hparams j s result
  rw [resourcesRead_eq hparams hlookup hordinary, reading, hmime]
  constructor
  · rintro ⟨s', h⟩
    obtain ⟨s₁, h₁, -⟩ := Coroutine.ends_coAwait.mp h
    rcases Coroutine.ends_bind.mp h₁ with ⟨text, s₂, htext, hresult, -⟩ | ⟨e, -, he⟩
    · obtain ⟨s₃, hread, -⟩ := Coroutine.ends_coAwait.mp htext
      exact ⟨text, ⟨s₃, hread⟩, Except.ok.inj hresult⟩
    · cases he
  · rintro ⟨text, ⟨s', hread⟩, rfl⟩
    have hawait : res.read.coAwait.Ends S j s (.ok text) s' :=
      Coroutine.ends_coAwait.mpr ⟨s', hread, hmean s'⟩
    exact ⟨s', Coroutine.ends_coAwait.mpr ⟨s',
      Coroutine.ends_bind.mpr (.inl ⟨text, s', hawait, rfl, rfl⟩), hmean s'⟩⟩

theorem refuses_resourcesRead (hlookup : registry.resources.table.lookup res.uri = some res)
    (hordinary : ¬metricsPrefix <+: res.uri) {e : Exception} (hmime : mimeTypeOf res = .error e) :
    Refuses (resourcesRead registry) res := by
  intro σ S params hparams j s result s' h
  rw [resourcesRead_eq hparams hlookup hordinary, reading, hmime] at h
  obtain ⟨s₁, h₁, -⟩ := Coroutine.ends_coAwait.mp h
  rcases Coroutine.ends_bind.mp h₁ with ⟨text, s₂, -, hfail, -⟩ | ⟨e', -, he'⟩
  · cases hfail
  · cases he'

theorem resourcesRead_of_prefix {uri : Str} (hparams : Names params uri)
    (htemplate : metricsPrefix <+: uri) : resourcesRead registry params =
      .ret (oneContent uri "text/plain".toList (metricsText (uri.drop 14))) := by
  rw [resourcesRead, valueString_of_names hparams]
  exact if_pos (List.isPrefixOf_iff_prefix.mpr htemplate)

end Reading

/-- What can be said of an entry of the list: it shows the uri of its resource, if the definition
does, and under this uri the resource is read, unless the built-in template is. What has no mime
type is shown as plain text. -/
structure Entry (registry : McpRegistry) (res : McpResource) (item : Json) : Prop where
  listed : res.listed = .ok item
  names : Names res.definition res.uri → Names item res.uri
  reads : ¬metricsPrefix <+: res.uri → ∀ mimeType, mimeTypeOf res = .ok mimeType →
    ReadsAs (resourcesRead registry) res mimeType
  refuses : ¬metricsPrefix <+: res.uri → ∀ e, mimeTypeOf res = .error e →
    Refuses (resourcesRead registry) res
  template : metricsPrefix <+: res.uri → ∀ params, Names params res.uri →
    resourcesRead registry params =
      .ret (oneContent res.uri "text/plain".toList (metricsText (res.uri.drop 14)))

theorem entry_of_lookup {registry : McpRegistry} {res : McpResource} {item : Json}
    (hlookup : registry.resources.table.lookup res.uri = some res) (hitem : res.listed = .ok item) :
    Entry registry res item where
  listed := hitem
  names hnames := (find?_listed hitem).trans hnames
  reads hordinary _ hmime := readsAs_resourcesRead hlookup hordinary hmime
  refuses hordinary _ hmime := refuses_resourcesRead hlookup hordinary hmime
  template htemplate _ hparams := resourcesRead_of_prefix hparams htemplate

/-- After any calls of `register_resource` the list has one entry for each uri, that of the resource
that is the last one under it, and what it shows can be read. -/
theorem entries_read (rs : List McpResource) (registry : McpRegistry)
    (h : registerAll rs = some registry) :
    ∃ listed items, registry.getResourcesList = .ok items ∧
      List.Forall₂ (Entry registry) listed items ∧ (∀ res, res ∈ listed ↔ LastOf rs res) ∧
      (listed.map (·.uri)).Nodup ∧ ∀ r ∈ rs, ∃ res ∈ listed, res.uri = r.uri := by
  obtain ⟨items, hlist, hitems⟩ := mapM_isOk (f := fun entry => entry.2.listed)
    (fun (entry : (_ : Str) × McpResource) (_ : entry ∈ registry.resources.table.entries) =>
      listed_isOk _ _ _ _ entry.2.isObject)
  refine ⟨listedResources registry, items, hlist, ?_, fun res => mem_listedResources h,
    nodup_listedResources h, fun r hr => ?_⟩
  · have hshown : List.Forall₂ (fun (res : McpResource) item => res.listed = .ok item)
        (listedResources registry) items := List.forall₂_map_left_iff.mpr hitems
    have hentries := (List.forall₂_and_left _ _).mpr ⟨fun res => lookup_of_listed h, hshown⟩
    exact hentries.imp fun _ _ hentry => entry_of_lookup hentry.1 hentry.2
  · obtain ⟨res, hlast, hres⟩ := exists_lastOf hr
    exact ⟨res, (mem_listedResources h).mpr hlast, hres⟩

section Examples

def fixed (uri mimeType text : Str) : McpResource where
  uri := uri
  name := "fixed".toList
  definition := .object [("mimeType".toList, .string mimeType), ("uri".toList, .string uri)]
  read := pure text
  isObject := rfl

def infos : List McpResource :=
  [fixed "test://info".toList "text/plain".toList "old".toList,
    fixed "test://info".toList "text/html".toList "new".toList]

theorem entries_read_infos :
    ∃ registry, registerAll infos = some registry ∧ ∃ listed items,
      registry.getResourcesList = .ok items ∧ List.Forall₂ (Entry registry) listed items ∧
      (∀ res, res ∈ listed ↔ LastOf infos res) ∧ (listed.map (·.uri)).Nodup ∧
      ∀ r ∈ infos, ∃ res ∈ listed, res.uri = r.uri := by
  obtain ⟨registry, h⟩ := Option.isSome_iff_exists.mp (show (registerAll infos).isSome by decide)
  exact ⟨registry, h, entries_read infos registry h⟩

/-- Every entry that shows the uri of its resource is read with the text and the mime type of the
resource, whatever the uri. -/
def AllRead (rs : List McpResource) : Prop :=
  ∀ registry, registerAll rs = some registry → ∀ items, registry.getResourcesList = .ok items →
    List.Forall₂ (fun entry item => Names item entry.2.uri →
      ∃ mimeType, entry.2.definition.find? "mimeType".toList = some (.string mimeType) ∧
        ReadsAs (resourcesRead registry) entry.2 mimeType) registry.resources.table.entries items

def cpu : McpResource := fixed "sys://metrics/cpu".toList "text/html".toList "42".toList

def untyped : McpResource where
  uri := "test://info".toList
  name := "untyped".toList
  definition := .object [("uri".toList, .string "test://info".toList)]
  read := pure "42".toList
  isObject := rfl

def alone : Surroundings HandlerI McpShard where
  exec _ op s := HandlerCall.exec CompactJson.library op s
  ready := HandlerCall.ready
  meanwhile := (· = ·)
  later := False

/-- The uri of the one is read as the template, and the other has no mime type of its own. -/
theorem not_allRead : ¬AllRead [cpu] ∧ ¬AllRead [untyped] := by
  constructor
  · intro h
    obtain ⟨mimeType, hmime, hreads⟩ := (List.forall₂_cons.mp (h _ rfl _ rfl)).1 rfl
    obtain rfl : "text/html".toList = mimeType := Json.string.inj (Option.some.inj hmime)
    let params : Json := .object [("uri".toList, .string cpu.uri)]
    have hanswer : ∀ registry, resourcesRead registry params =
        .ret (oneContent cpu.uri "text/plain".toList (metricsText (cpu.uri.drop 14))) :=
      fun registry => resourcesRead_of_prefix rfl (by decide)
    obtain ⟨text, -, hresult⟩ := (hreads alone (fun _ => rfl) params rfl 0 (fun _ => {}) _).mp
      ⟨fun _ => {}, by rw [hanswer]; exact ⟨rfl, rfl⟩⟩
    exact absurd (mimeType_of_oneContent hresult) (by decide)
  · intro h
    obtain ⟨mimeType, hmime, -⟩ := (List.forall₂_cons.mp (h _ rfl _ rfl)).1 rfl
    cases hmime

end Examples

end McpSdk.ResourceReads
