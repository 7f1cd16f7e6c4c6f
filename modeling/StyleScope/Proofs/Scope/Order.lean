import Mathlib.Data.List.Perm.Basic
import StyleScope.Proofs.Animation.Renaming
import StyleScope.Proofs.Scope.Frame

/-! # Orders that do not matter

Keyframes are collected before an animation is renamed, so an animation is renamed by the set of the
declared names and by nothing else: a table answers alike however the declarations are ordered
(`get?_tableOf`), and tables that answer alike rename alike (`renameDeclaration_congr`). Putting the
statements of a sheet into another order therefore does the same to the renamed sheet.

Selectors on the one hand, keyframes and animations on the other are different fields of different
statements, and neither walk changes whether an at-rule holds keyframes. So both orders of the two
walks amount to the pass of `scopeSheet_eq`.
-/
namespace StyleScope.Stylesheet

/-- The sheet with its statements put into another order, given by their places. -/
def Sheet.reorder (order : List Nat) (s : Sheet) : Sheet :=
  { s with nodes := order.filterMap fun i => s.nodes[i]? }

theorem mapNodes_eq_map (p : Pass) (inKeyframes : Bool) (ns : List Node) :
    mapNodes p inKeyframes ns = ns.map (Node.map p inKeyframes) := by
  induction ns with
  | nil => rfl
  | cons n ns ih => rw [mapNodes, List.map_cons, ih]

theorem nodesEvents_eq_flatMap (inKeyframes : Bool) (ns : List Node) :
    nodesEvents inKeyframes ns = ns.flatMap (Node.events inKeyframes) := by
  induction ns with
  | nil => rfl
  | cons n ns ih => rw [nodesEvents, List.flatMap_cons, ih]

/-- A pass meets every statement by itself, and so does not mind their order. -/
theorem Sheet.map_reorder (p : Pass) (order : List Nat) (s : Sheet) :
    (s.reorder order).map p = (s.map p).reorder order := by
  simp only [Sheet.map, Sheet.reorder, mapNodes_eq_map, List.map_filterMap, List.getElem?_map]

theorem filterMap_getElem?_range {α : Type} (l : List α) :
    ((List.range l.length).filterMap fun i => l[i]?) = l := by
  induction l with
  | nil => rfl
  | cons a l ih =>
      rw [List.length_cons, List.range_succ_eq_map, List.filterMap_cons, List.filterMap_map]
      exact congrArg (a :: ·) ih

theorem Sheet.perm_events_reorder {s : Sheet} {order : List Nat}
    (h : order.Perm (List.range s.nodes.length)) : (s.reorder order).events.Perm s.events := by
  have hnodes : (s.reorder order).nodes.Perm s.nodes := by
    have hperm := h.filterMap fun i => s.nodes[i]?
    rwa [filterMap_getElem?_range] at hperm
  rw [Sheet.events, Sheet.events, nodesEvents_eq_flatMap, nodesEvents_eq_flatMap]
  exact hnodes.flatMap_right _

end StyleScope.Stylesheet

namespace StyleScope.Animation
open Text Stylesheet

theorem Indexes.nodup {names keys : List Text} (h : Indexes names keys) : keys.Nodup := by
  refine h.ordered.imp fun {a b} hab => ?_
  rintro rfl
  exact absurd hab (Nat.lt_irrefl _)

section
variable {names names' : List Text} (h : names.Perm names') (scope : Text)
include h

theorem perm_entries_tableOf :
    (tableOf scope names).entries.Perm (tableOf scope names').entries := by
  obtain ⟨keys, hkeys, hentries⟩ := exists_indexes_tableOf scope names
  obtain ⟨keys', hkeys', hentries'⟩ := exists_indexes_tableOf scope names'
  have hperm : keys.Perm keys' := by
    refine (List.perm_ext_iff_of_nodup hkeys.nodup hkeys'.nodup).2 fun n => ?_
    rw [hkeys.mem_iff, hkeys'.mem_iff, h.mem_iff]
  rw [hentries, hentries']
  exact hperm.map _

theorem get?_tableOf_perm (n : Text) :
    (tableOf scope names).get? n = (tableOf scope names').get? n := by
  rw [get?_tableOf, get?_tableOf]
  exact if_congr h.mem_iff rfl rfl

end

section
variable {table table' : Table} (h : ∀ n, table.get? n = table'.get? n)
include h

theorem scopedToken?_congr (x : ValueToken) : scopedToken? table x = scopedToken? table' x := by
  cases x with
  | word w => exact h w
  | quoted t => simp only [scopedToken?, h]
  | _ => rfl

theorem renameEntries_congr (done : Bool) (xs : List ValueToken) :
    renameEntries table done xs = renameEntries table' done xs := by
  fun_induction renameEntries table done xs with
  | case1 => rfl
  | case2 done rest ih => rw [renameEntries, ih]
  | case3 done x rest hx hdone ih => rw [renameEntries, if_pos hdone, ih]; exact hx
  | case4 done x rest hx hdone renamed hr ih =>
      rw [scopedToken?_congr h] at hr
      rw [renameEntries, if_neg hdone, hr, ih]
      exact hx
  | case5 done x rest hx hdone hr ih =>
      rw [scopedToken?_congr h] at hr
      rw [renameEntries, if_neg hdone, hr, ih]
      exact hx

/-- Tables that answer alike rename alike. -/
theorem renameDeclaration_congr (d : Declaration) :
    renameDeclaration table d = renameDeclaration table' d := by
  have hnames : renameNames table d.value = renameNames table' d.value := by
    have htoken : renameToken table = renameToken table' := by
      funext x
      rw [renameToken, renameToken, scopedToken?_congr h]
    rw [renameNames, renameNames, htoken]
  have hshorthand : renameShorthand table d.value = renameShorthand table' d.value :=
    renameEntries_congr h false (valueTokens d.value)
  rw [renameDeclaration, renameDeclaration, hnames, hshorthand]

end

/-- Renaming a reordered sheet gives the renamed sheet, reordered alike, and the same entries. -/
theorem renameSheet_reorder (scope : Text) (s : Sheet) {order : List Nat}
    (h : order.Perm (List.range s.nodes.length)) :
    (renameSheet scope (s.reorder order)).1 = (renameSheet scope s).1.reorder order ∧
      (renameSheet scope (s.reorder order)).2.entries.Perm (renameSheet scope s).2.entries := by
  have hnames : (declaredNames (s.reorder order).events).Perm (declaredNames s.events) :=
    (Sheet.perm_events_reorder h).filterMap _
  have hrename : renameDeclaration (tableOf scope (declaredNames (s.reorder order).events)) =
      renameDeclaration (tableOf scope (declaredNames s.events)) :=
    funext (renameDeclaration_congr (get?_tableOf_perm hnames scope))
  refine ⟨?_, perm_entries_tableOf hnames scope⟩
  dsimp only [renameSheet]
  rw [hrename, Sheet.map_reorder]

/-- Keyframes that are declared twice, once inside another statement, come before the animation
that refers to them, and the two entries change places. -/
theorem renameSheet_reorder_repeated :
    let css : Text := ("p\x7banimation-name:b,a\x7d@keyframes a\x7b\x7d" ++
      "@media x\x7b@keyframes b\x7b\x7d@keyframes 'a'\x7b\x7d\x7d").toList
    ∃ s, parse? css = some s ∧ [2, 0, 1].Perm (List.range s.nodes.length) ∧
      (renameSheet ['s'] (s.reorder [2, 0, 1])).1 = (renameSheet ['s'] s).1.reorder [2, 0, 1] ∧
      (renameSheet ['s'] (s.reorder [2, 0, 1])).1.text =
        ("@media x\x7b@keyframes b-s\x7b\x7d@keyframes 'a-s'\x7b\x7d\x7d" ++
          "p\x7banimation-name:b-s,a-s\x7d@keyframes a-s\x7b\x7d").toList ∧
      (renameSheet ['s'] s).2.entries =
        [("a".toList, "a-s".toList), ("b".toList, "b-s".toList)] ∧
      (renameSheet ['s'] (s.reorder [2, 0, 1])).2.entries =
        [("b".toList, "b-s".toList), ("a".toList, "a-s".toList)] := by
  intro css
  obtain ⟨s, hs⟩ : ∃ s, parse? css = some s := Option.isSome_iff_exists.1 (by decide +kernel)
  have hlength : (parse? css).map (fun s => s.nodes.length) = some 3 := by decide +kernel
  have hentries : (parse? css).map (fun s => (renameSheet ['s'] s).2.entries) =
      some [("a".toList, "a-s".toList), ("b".toList, "b-s".toList)] := by decide +kernel
  have hout : (parse? css).map (fun s => ((renameSheet ['s'] (s.reorder [2, 0, 1])).1.text,
      (renameSheet ['s'] (s.reorder [2, 0, 1])).2.entries)) =
      some (("@media x\x7b@keyframes b-s\x7b\x7d@keyframes 'a-s'\x7b\x7d\x7d" ++
          "p\x7banimation-name:b-s,a-s\x7d@keyframes a-s\x7b\x7d").toList,
        [("b".toList, "b-s".toList), ("a".toList, "a-s".toList)]) := by decide +kernel
  rw [hs, Option.map_some, Option.some.injEq] at hlength hentries hout
  obtain ⟨htext, hreordered⟩ := Prod.mk.inj hout
  have hperm : [2, 0, 1].Perm (List.range s.nodes.length) := by
    rw [hlength]
    decide
  exact ⟨s, hs, hperm, (renameSheet_reorder ['s'] s hperm).1, htext, hentries, hreordered⟩

end StyleScope.Animation

namespace StyleScope.Scope
open Text Stylesheet Animation

theorem ruleCount_map {p : Pass} (hp : p.KeepsKeyframes) (s : Sheet) :
    ruleCount (s.map p) = ruleCount s := by
  rw [ruleCount, ruleCount, Sheet.events_map hp, List.countP_map]
  refine List.countP_congr fun e _ => ?_
  cases e with
  | rule r inKeyframes => exact Iff.rfl
  | atRule r => exact Iff.rfl
  | declaration d => exact Iff.rfl

/-- Scoping the selectors of the renamed sheet gives what renaming the scoped sheet gives. -/
theorem scopeSheet_eq_scopeSelectors_renameSheet (ctx : Context) (s : Sheet) :
    let renamed := renameSheet ctx.scope s
    scopeSheet ctx s =
      (scopeSelectors ctx renamed.1, { rules := ruleCount renamed.1, animations := renamed.2 }) := by
  intro renamed
  have hkeeps := keepsKeyframes_rename ctx.scope (keyframesTable ctx s)
  have htree : scopeSelectors ctx renamed.1 = s.map (scopingPass ctx (keyframesTable ctx s)) :=
    Sheet.map_map hkeeps s
  have hrules : ruleCount renamed.1 = ruleCount s := ruleCount_map hkeeps s
  rw [scopeSheet_eq, htree, hrules]
  rfl

end StyleScope.Scope
