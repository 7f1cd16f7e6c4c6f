import StyleScope.Stylesheet.Visit

/-! # Passes over a stylesheet

Two passes in a row are one pass, as long as the first leaves the names of keyframes alone, for the
second then meets every rule with the same flag (`Sheet.map_map`, `Sheet.events_map`). A pass that
leaves every statement met as it is leaves the sheet as it is (`Sheet.map_eq_self`).

The flag a rule is met with tells whether keyframes are among the at-rules around it
(`Sheet.rules_events`).
-/
namespace StyleScope.Stylesheet

def Pass.andThen (p q : Pass) : Pass where
  rule r inKeyframes := q.rule (p.rule r inKeyframes) inKeyframes
  atRule r := q.atRule (p.atRule r)
  declaration d := q.declaration (p.declaration d)

/-- No at-rule becomes keyframes or ceases to be. -/
def Pass.KeepsKeyframes (p : Pass) : Prop := ∀ r, (p.atRule r).isKeyframes = r.isKeyframes

section
variable {p q : Pass}

mutual
theorem Node.map_map (hp : p.KeepsKeyframes) (k : Bool) : ∀ n : Node,
    (n.map p k).map q k = n.map (p.andThen q) k
  | .rule r ns => by simp [Node.map, Pass.andThen, mapNodes_mapNodes hp]
  | .atBlock r ns => by simp [Node.map, Pass.andThen, hp r, mapNodes_mapNodes hp]
  | .atStatement r => by simp [Node.map, Pass.andThen]
  | .declaration d => by simp [Node.map, Pass.andThen]
  | .comment c => by simp [Node.map]
  | .raw r => by simp [Node.map]

theorem mapNodes_mapNodes (hp : p.KeepsKeyframes) (k : Bool) : ∀ ns : List Node,
    mapNodes q k (mapNodes p k ns) = mapNodes (p.andThen q) k ns
  | [] => rfl
  | n :: ns => by rw [mapNodes, mapNodes, mapNodes, Node.map_map hp, mapNodes_mapNodes hp]
end

theorem Sheet.map_map (hp : p.KeepsKeyframes) (s : Sheet) :
    (s.map p).map q = s.map (p.andThen q) := by
  simp [Sheet.map, mapNodes_mapNodes hp]

def Pass.event (p : Pass) : Event → Event
  | .rule r inKeyframes => .rule (p.rule r inKeyframes) inKeyframes
  | .atRule r => .atRule (p.atRule r)
  | .declaration d => .declaration (p.declaration d)

mutual
theorem Node.events_map (hp : p.KeepsKeyframes) (k : Bool) : ∀ n : Node,
    (n.map p k).events k = (n.events k).map p.event
  | .rule r ns => by simp [Node.map, Node.events, Pass.event, nodesEvents_mapNodes hp]
  | .atBlock r ns => by simp [Node.map, Node.events, Pass.event, hp r, nodesEvents_mapNodes hp]
  | .atStatement r => by simp [Node.map, Node.events, Pass.event]
  | .declaration d => by simp [Node.map, Node.events, Pass.event]
  | .comment c => by simp [Node.map, Node.events]
  | .raw r => by simp [Node.map, Node.events]

theorem nodesEvents_mapNodes (hp : p.KeepsKeyframes) (k : Bool) : ∀ ns : List Node,
    nodesEvents k (mapNodes p k ns) = (nodesEvents k ns).map p.event
  | [] => rfl
  | n :: ns => by
      rw [mapNodes, nodesEvents, nodesEvents, List.map_append, Node.events_map hp,
        nodesEvents_mapNodes hp]
end

theorem Sheet.events_map (hp : p.KeepsKeyframes) (s : Sheet) :
    (s.map p).events = s.events.map p.event :=
  nodesEvents_mapNodes hp false s.nodes

mutual
theorem Node.map_eq_self (k : Bool) : ∀ n : Node, (∀ e ∈ n.events k, p.event e = e) →
    n.map p k = n
  | .rule r ns, h => by
      have hr : p.rule r k = r := by simpa [Pass.event] using h (.rule r k) (by simp [Node.events])
      rw [Node.map, hr, mapNodes_eq_self k ns fun e he => h e (by simp [Node.events, he])]
  | .atBlock r ns, h => by
      have hr : p.atRule r = r := by simpa [Pass.event] using h (.atRule r) (by simp [Node.events])
      rw [Node.map, hr, mapNodes_eq_self _ ns fun e he => h e (by simp [Node.events, he])]
  | .atStatement r, h => by
      have hr : p.atRule r = r := by simpa [Pass.event] using h (.atRule r) (by simp [Node.events])
      rw [Node.map, hr]
  | .declaration d, h => by
      have hd : p.declaration d = d := by
        simpa [Pass.event] using h (.declaration d) (by simp [Node.events])
      rw [Node.map, hd]
  | .comment c, _ => by rw [Node.map]
  | .raw r, _ => by rw [Node.map]

theorem mapNodes_eq_self (k : Bool) : ∀ ns : List Node, (∀ e ∈ nodesEvents k ns, p.event e = e) →
    mapNodes p k ns = ns
  | [], _ => rfl
  | n :: ns, h => by
      rw [mapNodes, Node.map_eq_self k n fun e he => h e (by simp [nodesEvents, he]),
        mapNodes_eq_self k ns fun e he => h e (by simp [nodesEvents, he])]
end

theorem Sheet.map_eq_self {s : Sheet} (h : ∀ e ∈ s.events, p.event e = e) : s.map p = s := by
  rw [Sheet.map, mapNodes_eq_self false s.nodes h]

end

mutual
/-- The rules in a node, each with the at-rules around it from the innermost on. -/
def Node.placedRules (around : List AtRule) : Node → List (List AtRule × Rule)
  | .rule r nodes => (around, r) :: nodesPlacedRules around nodes
  | .atBlock r nodes => nodesPlacedRules (r :: around) nodes
  | _ => []

def nodesPlacedRules (around : List AtRule) : List Node → List (List AtRule × Rule)
  | [] => []
  | n :: ns => n.placedRules around ++ nodesPlacedRules around ns
end

def underKeyframes (around : List AtRule) : Bool := around.any AtRule.isKeyframes

def Event.rule? : Event → Option (Rule × Bool)
  | .rule r inKeyframes => some (r, inKeyframes)
  | _ => none

theorem underKeyframes_cons (r : AtRule) (around : List AtRule) :
    underKeyframes (r :: around) = (underKeyframes around || r.isKeyframes) := by
  rw [underKeyframes, List.any_cons, Bool.or_comm, underKeyframes]

mutual
theorem Node.rules_events (around : List AtRule) : ∀ n : Node,
    (n.events (underKeyframes around)).filterMap Event.rule? =
      (n.placedRules around).map fun p => (p.2, underKeyframes p.1)
  | .rule r ns => by
      simp [Node.events, Node.placedRules, Event.rule?, nodesRules_nodesEvents]
  | .atBlock r ns => by
      rw [Node.events, ← underKeyframes_cons, Node.placedRules, List.filterMap_cons_none rfl,
        nodesRules_nodesEvents]
  | .atStatement r => by simp [Node.events, Node.placedRules, Event.rule?]
  | .declaration d => by simp [Node.events, Node.placedRules, Event.rule?]
  | .comment c => by simp [Node.events, Node.placedRules]
  | .raw r => by simp [Node.events, Node.placedRules]

theorem nodesRules_nodesEvents (around : List AtRule) : ∀ ns : List Node,
    (nodesEvents (underKeyframes around) ns).filterMap Event.rule? =
      (nodesPlacedRules around ns).map fun p => (p.2, underKeyframes p.1)
  | [] => rfl
  | n :: ns => by
      rw [nodesEvents, nodesPlacedRules, List.filterMap_append, List.map_append,
        Node.rules_events, nodesRules_nodesEvents]
end

/-- The rules of a sheet that have no keyframes around them. -/
def Sheet.freeRules (s : Sheet) : List Rule :=
  ((nodesPlacedRules [] s.nodes).filter fun p => !underKeyframes p.1).map Prod.snd

theorem Sheet.rules_events (s : Sheet) :
    s.events.filterMap Event.rule? =
      (nodesPlacedRules [] s.nodes).map fun p => (p.2, underKeyframes p.1) :=
  nodesRules_nodesEvents [] s.nodes

end StyleScope.Stylesheet
