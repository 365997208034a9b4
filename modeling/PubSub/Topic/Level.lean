/-!
# Topic levels

A topic or a filter is a text divided at each slash. A text has one list of levels, and the list
gives the text back.
-/

namespace PubSub.Topic

/-- One part of a topic, without its slashes. -/
abbrev Level := List Char

/-- The parts of a topic, never none: the empty text has one empty level. -/
def levels (s : String) : List Level := s.toList.splitOn '/'

theorem levels_ne_nil (s : String) : levels s ≠ [] := List.splitOn_ne_nil _ _

theorem levels_injective {s t : String} (h : levels s = levels t) : s = t := by
  have join (u : String) : ['/'].intercalate (levels u) = u.toList := List.intercalate_splitOn '/'
  exact String.toList_inj.1 (by rw [← join s, h, join])

end PubSub.Topic
