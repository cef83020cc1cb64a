/-!
# Ordered maps

Maps from names to values that keep the order in which their keys were last written. Writing a key
that is already there replaces its value and moves it to the end, so a key stands where it was
written last (`keys_insert`).
-/

namespace SheetMarkup

/-- A finite map with ordered entries, one for each key. -/
structure OrderedMap (β : Type) where
  entries : List (String × β)
  keys_nodup : (entries.map Prod.fst).Nodup

namespace OrderedMap

variable {β : Type}

/-- The map without entries. -/
def empty : OrderedMap β := ⟨[], by simp⟩

/-- The keys in order. -/
def keys (m : OrderedMap β) : List String := m.entries.map Prod.fst

/-- Writes a key: its old entry goes, and the new one stands last. -/
def insert (m : OrderedMap β) (key : String) (value : β) : OrderedMap β where
  entries := m.entries.filter (fun entry => entry.1 ≠ key) ++ [(key, value)]
  keys_nodup := by
    rw [List.map_append, List.nodup_append]
    refine ⟨(m.keys_nodup.sublist (List.filter_sublist.map _)), by simp, ?_⟩
    intro a ha b hb
    simp only [List.mem_map, List.mem_filter, decide_eq_true_eq] at ha
    obtain ⟨entry, ⟨_, ne⟩, rfl⟩ := ha
    simp only [List.map_cons, List.map_nil, List.mem_singleton] at hb
    exact hb ▸ ne

instance [BEq β] : BEq (OrderedMap β) := ⟨fun a b => a.entries == b.entries⟩

theorem entries_insert (m : OrderedMap β) (key : String) (value : β) :
    (m.insert key value).entries =
      m.entries.filter (fun entry => entry.1 ≠ key) ++ [(key, value)] := rfl

theorem keys_insert (m : OrderedMap β) (key : String) (value : β) :
    (m.insert key value).keys = m.keys.filter (· ≠ key) ++ [key] := by
  simp [keys, insert, List.filter_map, Function.comp_def]

/-- Maps with the same entries are the same. -/
@[ext] theorem ext {a b : OrderedMap β} (h : a.entries = b.entries) : a = b := by
  cases a; cases b; cases h; rfl

end OrderedMap

end SheetMarkup
