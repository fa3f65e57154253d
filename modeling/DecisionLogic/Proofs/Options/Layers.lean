import DecisionLogic.Options.Layers
import Mathlib

/-!
# What a layer sets

A layer sets an option to the last of its settings for it; an empty table sets nothing.  An option
is read from the table that the layers are written into as it is read from the setting of the
highest layer that sets it: whatever a lower layer wrote is replaced, or it is a part of a table,
which no option is read from.
-/

namespace DecisionLogic

/-! ## Written settings -/

namespace Setting

theorem exists_cons_insert (entries : Fields Setting) (key : String) (setting : Setting) :
    ∃ entry rest, entries.insert key setting = entry :: rest := by
  cases entries with
  | nil => exact ⟨_, _, rfl⟩
  | cons entry rest =>
      unfold Fields.insert
      split
      · exact ⟨_, _, rfl⟩
      · exact ⟨_, _, rfl⟩

theorem mergeEntries_cons (old : Setting) (entry : String × Setting)
    (rest : List (String × Setting)) :
    ∃ first others, mergeEntries old (entry :: rest) = .table (first :: others) := by
  induction rest generalizing old entry with
  | nil =>
      obtain ⟨first, others, hinsert⟩ := exists_cons_insert old.entries (lowerCase entry.1)
        (merge (Fields.find? old.entries (lowerCase entry.1)) entry.2)
      exact ⟨first, others, by rw [mergeEntries, mergeEntries, hinsert]⟩
  | cons next rest ih =>
      rw [mergeEntries]
      exact ih _ _

/-- How a setting is written at the end of a path: an empty table keeps what is there, another one
becomes a part of a table, and anything else takes the place of what is there. -/
theorem write_spec (setting : Setting) (path : List KeyStep) :
    (∀ old, setting.write path old = old.getD (.table [])) ∨
      (∃ written, written ≠ .table [] ∧ ∀ old, setting.write path old = written) ∨
      ∀ old, ∃ entry rest, setting.write path old = .table (entry :: rest) := by
  cases path with
  | nil =>
      cases setting with
      | table entries =>
          cases entries with
          | nil => exact .inl fun _ => rfl
          | cons entry rest => exact .inr (.inr fun _ => mergeEntries_cons _ _ _)
      | nothing => exact .inr (.inl ⟨.nothing, by simp, fun _ => rfl⟩)
      | boolean b => exact .inr (.inl ⟨.boolean b, by simp, fun _ => rfl⟩)
      | integer n => exact .inr (.inl ⟨.integer n, by simp, fun _ => rfl⟩)
      | real x => exact .inr (.inl ⟨.real x, by simp, fun _ => rfl⟩)
      | text t => exact .inr (.inl ⟨.text t, by simp, fun _ => rfl⟩)
      | list items => exact .inr (.inl ⟨.list items, by simp, fun _ => rfl⟩)
  | cons step path =>
      cases step with
      | name name =>
          refine .inr (.inr fun old => ?_)
          obtain ⟨entry, rest, hinsert⟩ := exists_cons_insert (old.elim [] entries) name
            (setting.write path (Fields.find? (old.elim [] entries) name))
          exact ⟨entry, rest, by rw [write, hinsert]⟩
      | place index => exact .inr (.inl ⟨.list [], by simp, fun _ => rfl⟩)

theorem toCount?_natCast (n : Nat) : toCount? (.integer n) = some n := by
  simp [toCount?]

/-- A setting other than an empty table. -/
def filled? : Setting → Option Setting
  | .table [] => none
  | setting => some setting

theorem filled?_of_ne {setting : Setting} (hne : setting ≠ .table []) :
    setting.filled? = some setting := by
  unfold filled?
  split
  next => exact absurd rfl hne
  next => rfl

end Setting

/-! ## Options -/

namespace Options

/-- The four options. -/
inductive Item where
  | yieldSupported
  | disableInline
  | poolMax
  | maxDepth

namespace Item

def name : Item → String
  | .yieldSupported => "yield_supported"
  | .disableInline => "disable_inline"
  | .poolMax => "pool_max"
  | .maxDepth => "max_depth"

/-- What an option is: a truth value or a count. -/
abbrev Value : Item → Type
  | .yieldSupported => Bool
  | .disableInline => Bool
  | .poolMax => Nat
  | .maxDepth => Nat

/-- The value that is read from a setting for an option. -/
def ofSetting? : (item : Item) → Setting → Option item.Value
  | .yieldSupported => Setting.toBool?
  | .disableInline => Setting.toBool?
  | .poolMax => Setting.toCount?
  | .maxDepth => Setting.toCount?

def toSetting : (item : Item) → item.Value → Setting
  | .yieldSupported => .boolean
  | .disableInline => .boolean
  | .poolMax => fun count => .integer (count : Nat)
  | .maxDepth => fun count => .integer (count : Nat)

theorem ofSetting?_toSetting (item : Item) (value : item.Value) :
    item.ofSetting? (item.toSetting value) = some value := by
  cases item with
  | yieldSupported => rfl
  | disableInline => rfl
  | poolMax => exact Setting.toCount?_natCast value
  | maxDepth => exact Setting.toCount?_natCast value

theorem ofSetting?_table (item : Item) (entries : List (String × Setting)) :
    item.ofSetting? (.table entries) = none := by
  cases item <;> rfl

/-- The value that is read for an option from a table of settings. -/
def reading? (item : Item) (root : Setting) : Option item.Value :=
  (Fields.find? root.entries item.name).bind item.ofSetting?

end Item
end Options

namespace Layer

open Options (Item)

/-- What an entry of a layer sets a name to. -/
def given? (name : String) : List KeyStep × Setting → Option Setting
  | (.name other :: path, setting) =>
      if other = name then (setting.write path none).filled? else none
  | _ => none

theorem given?_name (key name : String) (path : List KeyStep) (setting : Setting) :
    given? key (.name name :: path, setting) =
      if name = key then (setting.write path none).filled? else none := rfl

/-- What a layer sets a name to: the last that its entries set it to. -/
def setting? (layer : Layer) (name : String) : Option Setting :=
  layer.reverse.findSome? (given? name)

/-- Every entry sets something at or below a name. -/
def Named (layer : Layer) : Prop :=
  ∀ entry ∈ layer, ∃ name path, entry.1 = .name name :: path

/-- After a setting is written, an option is read from what it sets the option to, or as before. -/
theorem reading?_write (item : Item) (name : String) (path : List KeyStep)
    (setting root : Setting) :
    item.reading? (setting.write (.name name :: path) (some root)) =
      (given? item.name (.name name :: path, setting)).elim (item.reading? root)
        item.ofSetting? := by
  have hwritten : setting.write (.name name :: path) (some root) =
      .table (Fields.insert root.entries name
        (setting.write path (Fields.find? root.entries name))) := rfl
  unfold Item.reading?
  rw [hwritten, Setting.entries, given?_name]
  by_cases hname : name = item.name
  · rw [if_pos hname, ← hname, Fields.find?_insert_self, Option.bind_some]
    rcases setting.write_spec path with hkept | ⟨written, hne, hplain⟩ | htable
    · rw [hkept, hkept]
      cases Fields.find? root.entries name with
      | none => exact item.ofSetting?_table []
      | some old => rfl
    · rw [hplain, hplain, Setting.filled?_of_ne hne]
      rfl
    · obtain ⟨entry, rest, hold⟩ := htable (Fields.find? root.entries name)
      obtain ⟨entry', rest', hnone⟩ := htable none
      rw [hold, hnone, Setting.filled?_of_ne (by simp), Option.elim_some, Item.ofSetting?_table,
        Item.ofSetting?_table]
  · rw [if_neg hname, Fields.find?_insert_of_ne _ _ hname]
    rfl

/-- After a layer is written, an option is read from what the layer sets it to, or as before. -/
theorem reading?_writeTo {layer : Layer} (hnamed : layer.Named) (item : Item) (root : Setting) :
    item.reading? (layer.writeTo root) =
      (layer.setting? item.name).elim (item.reading? root) item.ofSetting? := by
  induction layer using List.reverseRecOn with
  | nil => rfl
  | append_singleton layer entry ih =>
      obtain ⟨name, path, hpath⟩ := hnamed entry (by simp)
      obtain ⟨steps, setting⟩ := entry
      obtain rfl : steps = .name name :: path := hpath
      have hrest := ih fun entry hmem => hnamed entry (List.mem_append_left _ hmem)
      have hstep := reading?_write item name path setting (writeTo layer root)
      unfold writeTo setting? at *
      rw [List.foldl_append, List.foldl_cons, List.foldl_nil, List.reverse_append,
        List.reverse_singleton, List.singleton_append, List.findSome?_cons]
      dsimp only
      rw [hstep]
      cases given? item.name (.name name :: path, setting) with
      | none => exact hrest
      | some given => rfl

/-- What the highest of some layers that sets a name sets it to; the highest layer stands last. -/
def highest? (layers : List Layer) (name : String) : Option Setting :=
  layers.reverse.findSome? fun layer => layer.setting? name

theorem reading?_layers {layers : List Layer} (hnamed : ∀ layer ∈ layers, layer.Named)
    (item : Item) (root : Setting) :
    item.reading? (layers.foldl (fun root (layer : Layer) => layer.writeTo root) root) =
      (highest? layers item.name).elim (item.reading? root) item.ofSetting? := by
  induction layers using List.reverseRecOn with
  | nil => rfl
  | append_singleton layers layer ih =>
      have hrest := ih fun layer hmem => hnamed layer (List.mem_append_left _ hmem)
      have hstep := reading?_writeTo (hnamed layer (by simp)) item
        (layers.foldl (fun root (layer : Layer) => layer.writeTo root) root)
      unfold highest? at *
      rw [List.foldl_append, List.foldl_cons, List.foldl_nil, List.reverse_append,
        List.reverse_singleton, List.singleton_append, List.findSome?_cons, hstep]
      cases layer.setting? item.name with
      | none => exact hrest
      | some setting => rfl

end Layer
end DecisionLogic
