import DecisionLogic.Logic

/-!
# Trees that read back

A tree is plain when reading its JSON form gives it back.  Trees that were read are plain, and so
are their parts; a literal that holds an array or an operation is not.
-/

namespace DecisionLogic.Logic

mutual

theorem toJson_parse : ∀ value : Json, (parse value).toJson = value
  | .array items => by
      simp only [parse, toJson, itemsToJson_parseItems items]
  | .object [(name, args)] => by
      simp only [parse, toJson, toJson_parse args]
  | .object [] => by simp only [parse, toJson]
  | .object (_ :: _ :: _) => by simp only [parse, toJson]
  | .null => by simp only [parse, toJson]
  | .bool _ => by simp only [parse, toJson]
  | .number _ => by simp only [parse, toJson]
  | .string _ => by simp only [parse, toJson]

theorem itemsToJson_parseItems : ∀ values : List Json, itemsToJson (parseItems values) = values
  | [] => rfl
  | value :: values => by
      simp only [parseItems, itemsToJson, toJson_parse value, itemsToJson_parseItems values]

end

theorem eq_literal_of_guard {limit depth : Nat} {value : Json} {node : Logic}
    (hparse : (if limit < depth then .error (.nestingTooDeep limit) else .ok (.literal value) :
      Except Failure Logic) = .ok node) : .literal value = node := by
  split at hparse
  · cases hparse
  · cases hparse
    rfl

mutual

theorem parse_of_parseAt {limit : Nat} : ∀ {value : Json} {depth : Nat} {node : Logic},
    parseAt limit depth value = .ok node → parse value = node
  | .array items, depth, node, hparse => by
      unfold parseAt at hparse
      split at hparse
      · cases hparse
      · cases hitems : parseItemsAt limit (depth + 1) items with
        | error failure => simp [hitems, Except.map] at hparse
        | ok nodes =>
            rw [hitems] at hparse
            cases hparse
            rw [parse, parseItems_of_parseItemsAt hitems]
  | .object [(name, args)], depth, node, hparse => by
      unfold parseAt at hparse
      split at hparse
      · cases hparse
      · cases hargs : parseAt limit (depth + 1) args with
        | error failure => simp [hargs, Except.map] at hparse
        | ok tree =>
            rw [hargs] at hparse
            cases hparse
            rw [parse, parse_of_parseAt hargs]
  | .object [], depth, node, hparse => eq_literal_of_guard (by simpa [parseAt] using hparse)
  | .object (_ :: _ :: _), depth, node, hparse => by
      simp only [parse]
      exact eq_literal_of_guard (by simpa [parseAt] using hparse)
  | .null, depth, node, hparse => eq_literal_of_guard (by simpa [parseAt] using hparse)
  | .bool _, depth, node, hparse => eq_literal_of_guard (by simpa [parseAt] using hparse)
  | .number _, depth, node, hparse => eq_literal_of_guard (by simpa [parseAt] using hparse)
  | .string _, depth, node, hparse => eq_literal_of_guard (by simpa [parseAt] using hparse)

theorem parseItems_of_parseItemsAt {limit : Nat} :
    ∀ {values : List Json} {depth : Nat} {nodes : List Logic},
      parseItemsAt limit depth values = .ok nodes → parseItems values = nodes
  | [], depth, nodes, hparse => by
      cases hparse
      rfl
  | value :: values, depth, nodes, hparse => by
      unfold parseItemsAt at hparse
      cases hfirst : parseAt limit depth value with
      | error failure => simp [hfirst] at hparse
      | ok first =>
          cases hrest : parseItemsAt limit depth values with
          | error failure => simp [hfirst, hrest, Except.map] at hparse
          | ok rest =>
              rw [hfirst, hrest] at hparse
              cases hparse
              rw [parseItems, parse_of_parseAt hfirst, parseItems_of_parseItemsAt hrest]

end

/-! ## Plain trees -/

/-- The logic as it is after a suspension kept it as a value. -/
def reparse (node : Logic) : Logic :=
  .parse node.toJson

def Plain (node : Logic) : Prop :=
  node.reparse = node

theorem plain_of_parseBounded {limit : Nat} {value : Json} {node : Logic}
    (hparse : parseBounded limit value = .ok node) : node.Plain := by
  rw [← parse_of_parseAt hparse]
  unfold Plain reparse
  rw [toJson_parse]

theorem plain_null : (literal .null).Plain := rfl

theorem Plain.item {items : List Logic} (hplain : (sequence items).Plain) :
    ∀ item ∈ items, item.Plain := by
  have hitems : parseItems (itemsToJson items) = items := by
    unfold Plain reparse at hplain
    rw [toJson, parse] at hplain
    exact sequence.inj hplain
  clear hplain
  induction items with
  | nil => simp
  | cons first rest ih =>
      rw [itemsToJson, parseItems] at hitems
      obtain ⟨hfirst, hrest⟩ := List.cons.inj hitems
      intro item hitem
      rcases List.mem_cons.mp hitem with rfl | hmem
      · exact hfirst
      · exact ih hrest item hmem

theorem Plain.args {name : String} {args : Logic} (hplain : (operation name args).Plain) :
    args.Plain := by
  unfold Plain reparse at hplain ⊢
  rw [toJson, parse] at hplain
  exact (operation.inj hplain).2

theorem Plain.argument {name : String} {args : Logic} (hplain : (operation name args).Plain) :
    ∀ node ∈ args.arguments, node.Plain := by
  have hargs := hplain.args
  intro node hnode
  cases args with
  | sequence items => exact hargs.item node hnode
  | _ =>
      rw [List.mem_singleton.mp hnode]
      exact hargs

theorem map_reparse {nodes : List Logic} (hplain : ∀ node ∈ nodes, node.Plain) :
    nodes.map reparse = nodes := by
  have hmap : nodes.map reparse = nodes.map id := List.map_congr_left hplain
  rwa [List.map_id] at hmap

end DecisionLogic.Logic
