import McpSdk.CursorPages
import McpSdk.McpRegistry

/-!
# The pages of the registry

The handlers of tools/list, resources/list and prompts/list answer every cursor with a page of
what is registered: at most 50 entries in one piece, with a cursor exactly when entries remain
after them. A client that follows the cursors gets every entry once, in the order of the registry.
-/

namespace McpSdk.RegistryLists
open CppStandardLibrary CooperativeTasks CursorPages

section Bounds
variable {size offset : ℕ}

theorem toPtrdiff_of_lt {n : ℕ} (h : n < 2 ^ 63) : toPtrdiff n = n := if_pos h

theorem iteratorAdd_eq {it d : ℕ} (h : it + d ≤ size) : iteratorAdd size it d = some (it + d) := by
  unfold iteratorAdd
  rw [if_pos ⟨by omega, by omega⟩]
  rfl

theorem pageBounds_eq (hsize : size < 2 ^ 63) (h : offset < size) :
    pageBounds size offset =
      some (offset, if offset + pageSize < size then offset + pageSize else size) := by
  have hoffset : toPtrdiff offset = offset := toPtrdiff_of_lt (by omega)
  have hfirst : iteratorAdd size 0 offset = some offset := by
    rw [iteratorAdd_eq (by omega), Nat.zero_add]
  have hpage : toPtrdiff pageSize = pageSize := toPtrdiff_of_lt (by decide)
  have hsum : (offset + pageSize) % 2 ^ 64 = offset + pageSize := by
    unfold pageSize
    omega
  unfold pageBounds
  rw [hoffset, hfirst, hsum, hpage]
  simp only [Option.bind_eq_bind, Option.bind_some]
  by_cases hmore : offset + pageSize < size
  · rw [if_pos hmore, if_pos hmore, iteratorAdd_eq (Nat.le_of_lt hmore)]
    rfl
  · rw [if_neg hmore, if_neg hmore]
    rfl

end Bounds

section Pages

def pageResult (key : Str) (page : Page Json Str) : Json :=
  .ofMembers ((key, .array page.entries) ::
    (page.next.map (fun c => ("nextCursor".toList, Json.string c))).toList)

theorem listPage_eq (key : Str) {all : List Json} (hsize : all.length < 2 ^ 63) (params : Json) :
    listPage key all params =
      some (pageResult key (pageAt all pageSize toStr (cursorOffset params))) := by
  unfold listPage pageAt pageResult
  generalize cursorOffset params = offset
  by_cases hend : all.length ≤ offset
  · have hdrop : all.drop offset = [] := List.drop_eq_nil_of_le hend
    have hlast : ¬offset + pageSize < all.length := by omega
    rw [if_pos hend]
    simp only [hdrop, if_neg hlast, List.take_nil, Option.map_none, Option.toList_none]
  · have hsum : (offset + pageSize) % 2 ^ 64 = offset + pageSize := by
      unfold pageSize
      omega
    rw [if_neg hend, pageBounds_eq hsize (Nat.lt_of_not_le hend), hsum]
    simp only [Option.bind_eq_bind, Option.bind_some]
    by_cases hmore : offset + pageSize < all.length
    · rw [if_pos hmore, if_pos hmore, if_pos (Nat.ne_of_lt hmore), Nat.add_sub_cancel_left]
      rfl
    · have htake : (all.drop offset).take (all.length - offset) =
          (all.drop offset).take pageSize := by
        have hlength : (all.drop offset).length = all.length - offset := List.length_drop
        rw [List.take_of_length_le hlength.le, List.take_of_length_le (by omega)]
      rw [if_neg hmore, if_neg hmore, if_neg (fun h => h rfl), htake]
      rfl

/-- What a client takes from a result. -/
def pageOf (key : Str) (result : Json) : Page Json Str where
  entries := match result.find? key with
    | some (.array items) => items
    | _ => []
  next := match result.find? "nextCursor".toList with
    | some (.string c) => some c
    | _ => none

inductive ListKey : Str → Prop
  | tools : ListKey "tools".toList
  | resources : ListKey "resources".toList
  | prompts : ListKey "prompts".toList

theorem pageOf_pageResult {key : Str} (hkey : ListKey key) (page : Page Json Str) :
    pageOf key (pageResult key page) = page := by
  obtain ⟨entries, next⟩ := page
  cases hkey <;> cases next <;> rfl

end Pages

section Entries

theorem assignIfSome_isObject (key : Str) (v : Option Json) {j : Json} (h : j.isObject) :
    ∃ j', j.assignIfSome key v = .ok j' ∧ j'.isObject := by
  cases j with
  | object members => cases v with
    | none => exact ⟨_, rfl, rfl⟩
    | some v => exact ⟨.object (Json.insertMember key v members), rfl, rfl⟩
  | _ => cases h

theorem listed_isOk (title : Str) (outputSchema : Option Json) (annotations : Json)
    (iconUri : Option Str) {definition : Json} (h : definition.isObject) :
    ∃ item, listed title outputSchema annotations iconUri definition = .ok item := by
  obtain ⟨j₁, htitle, h₁⟩ := assignIfSome_isObject "title".toList
    (if definition.contains "title".toList then none else some (.string title)) h
  obtain ⟨j₂, hschema, h₂⟩ := assignIfSome_isObject "outputSchema".toList outputSchema h₁
  obtain ⟨j₃, hannotations, h₃⟩ :=
    assignIfSome_isObject "annotations".toList annotations.nonNull h₂
  obtain ⟨j₄, hicon, -⟩ := assignIfSome_isObject "icon".toList (iconUri.map .string) h₃
  refine ⟨j₄, ?_⟩
  calc listed title outputSchema annotations iconUri definition
    _ = (j₁.assignIfSome "outputSchema".toList outputSchema).bind _ := by
        rw [listed, htitle]
        rfl
    _ = (j₂.assignIfSome "annotations".toList annotations.nonNull).bind _ := by
        rw [hschema]
        rfl
    _ = j₃.assignIfSome "icon".toList (iconUri.map .string) := by
        rw [hannotations]
        rfl
    _ = .ok j₄ := hicon

theorem mapM_isOk {α : Type*} {f : α → Except Exception Json} {entries : List α}
    (h : ∀ entry ∈ entries, ∃ item, f entry = .ok item) :
    ∃ items, entries.mapM f = .ok items ∧
      List.Forall₂ (fun entry item => f entry = .ok item) entries items := by
  induction entries with
  | nil => exact ⟨[], rfl, .nil⟩
  | cons entry entries ih =>
    obtain ⟨item, hitem⟩ := h entry (.head _)
    obtain ⟨items, hitems, hall⟩ := ih (fun e he => h e (.tail _ he))
    refine ⟨item :: items, ?_, .cons hitem hall⟩
    rw [List.mapM_cons, hitem]
    change (entries.mapM f).bind _ = _
    rw [hitems]
    rfl

end Entries

section Clients

/-- The parameters of a request with a cursor. -/
def withCursor : Option Str → Json
  | none => .object []
  | some cursor => .object [("cursor".toList, .string cursor)]

/-- What a handler that answers at once returns. -/
def answerOf : Coroutine HandlerI Input Exception Json → Json
  | .ret result => result
  | _ => .null

/-- The handler serves the list in pages: each answer is a page, and whoever follows the cursors
gets the whole list. -/
structure Paginates (key : Str) (all : List Json) (handler : MethodHandler HandlerI) : Prop where
  answers : ∀ params, ∃ result, handler params = .ret result ∧
    IsPageOf all pageSize (pageOf key result)
  complete : ∃ requests, collect (fun cursor => pageOf key (answerOf (handler (withCursor cursor))))
    requests none = some all

theorem cursorOffset_toStr {offset : ℕ} (h : offset < 2 ^ 64) :
    cursorOffset (withCursor (some (toStr offset))) = offset := by
  change (stoul (toStr offset)).getD 0 = offset
  rw [stoul_toStr h]
  rfl

theorem paginates_listHandler {key : Str} (hkey : ListKey key) {list : Except Exception (List Json)}
    {all : List Json} (hlist : list = .ok all) (hsize : all.length < 2 ^ 63) :
    Paginates key all (listHandler key list) := by
  have hanswer : ∀ params, listHandler key list params =
      .ret (pageResult key (pageAt all pageSize toStr (cursorOffset params))) := by
    intro params
    subst hlist
    unfold listHandler Coroutine.ofExcept
    dsimp only [Bind.bind, Coroutine.andThen]
    rw [listPage_eq key hsize params]
    rfl
  constructor
  · intro params
    refine ⟨_, hanswer params, ?_⟩
    rw [pageOf_pageResult hkey]
    exact isPageOf_pageAt (by decide) _
  · refine ⟨all.length + 1, ?_⟩
    have hfetch : ∀ cursor, pageOf key (answerOf (listHandler key list (withCursor cursor))) =
        pageAt all pageSize toStr (cursorOffset (withCursor cursor)) := by
      intro cursor
      rw [hanswer]
      exact pageOf_pageResult hkey _
    have hdecode : ∀ offset < all.length,
        cursorOffset (withCursor (some (toStr offset))) = offset :=
      fun offset h => cursorOffset_toStr (by omega)
    exact collect_pageAt (fun cursor => cursorOffset (withCursor cursor)) hfetch hdecode
      all.length none (by unfold pageSize; omega)

end Clients

/-- The handler lists what is registered, one item for each entry and in the same order. -/
def ListsAll {α : Type*} (key : Str) (registered : Registered α)
    (item : α → Except Exception Json) (handler : MethodHandler HandlerI) : Prop :=
  ∃ all, List.Forall₂ (fun entry shown => item entry.2 = .ok shown) registered.table.entries all ∧
    Paginates key all handler

theorem listsAll_of_isOk {α : Type*} {key : Str} (hkey : ListKey key) (registered : Registered α)
    {item : α → Except Exception Json} (hitem : ∀ entry, ∃ shown, item entry = .ok shown) :
    ListsAll key registered item (listHandler key
      (registered.table.entries.mapM (fun entry => item entry.2))) := by
  obtain ⟨all, hall, hshown⟩ := mapM_isOk (f := fun entry => item entry.2)
    (fun (entry : (_ : Str) × α) (_ : entry ∈ registered.table.entries) => hitem entry.2)
  refine ⟨all, hshown, paginates_listHandler hkey hall ?_⟩
  rw [← hshown.length_eq]
  exact registered.size_lt

/-- Whatever is registered, the three list handlers answer every cursor with a page, and following
the cursors gives every entry once, in the order of the registry. -/
theorem lists_all (registry : McpRegistry) :
    ListsAll "tools".toList registry.tools McpTool.listed (toolsList registry) ∧
    ListsAll "resources".toList registry.resources McpResource.listed (resourcesList registry) ∧
    ListsAll "prompts".toList registry.prompts McpPrompt.listed (promptsList registry) :=
  ⟨listsAll_of_isOk .tools _ (fun tool => listed_isOk _ _ _ _ tool.isObject),
    listsAll_of_isOk .resources _ (fun res => listed_isOk _ _ _ _ res.isObject),
    listsAll_of_isOk .prompts _ (fun prompt => listed_isOk _ _ _ _ prompt.isObject)⟩

end McpSdk.RegistryLists
