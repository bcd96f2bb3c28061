import CalendarStamp.Proofs.MovedKeys
import CalendarStamp.Proofs.ShownKeys
import Mathlib.Data.List.DropRight

/-!
# Addresses of lookups

The address of a lookup is put together from the address of a calendar, which came
with an answer and may hold anything, and from a key of any length.  Still it tells
both.  The key is shown with hexadecimal digits, so whatever slashes, digits or
segments called `timestamp` the calendar's own address holds, the key is what stands
behind the last slash of all.  In front of it remains the calendar's address, of
which only the number of slashes at its end is lost.

Main results:

- Theorem `trims_iff`: what is left of a text without the slashes at its end.
- Theorem `endpoint_eq_iff`: addresses of one path at two calendars.
- Theorem `lookup_url_eq_iff`: when two lookups have the same address.
-/

namespace CalendarStamp.Request

/-! ## Slashes at the end -/

/-- Whether an address is all of a text but the slashes at its end. -/
structure Trims (text address : String) : Prop where
  slashes : ∃ count, text.toList = address.toList ++ List.replicate count '/'
  ends : address.toList.getLast? ≠ some '/'

theorem toList_trimSlashes (text : String) :
    (trimSlashes text).toList = text.toList.rdropWhile (· = '/') := by
  rw [trimSlashes, String.toList_ofList, List.rdropWhile]

/-- Only slashes are taken away, and all of them. -/
theorem trims_trimSlashes (text : String) : Trims text (trimSlashes text) where
  slashes := by
    refine ⟨(text.toList.rtakeWhile (· = '/')).length, ?_⟩
    have hslashes : ∀ c ∈ text.toList.rtakeWhile (· = '/'), c = '/' := by
      intro c hc
      simpa using List.mem_rtakeWhile_imp hc
    rw [toList_trimSlashes, ← List.eq_replicate_of_mem hslashes, List.rdropWhile_append_rtakeWhile]
  ends := by
    rw [toList_trimSlashes]
    intro hlast
    rcases List.getLast?_eq_some_iff.mp hlast with ⟨front, hfront⟩
    have hne : text.toList.rdropWhile (· = '/') ≠ [] := by simp [hfront]
    have hkept := List.rdropWhile_last_not (· = '/') text.toList hne
    simp [hfront] at hkept

/-- A text is one address with slashes at its end. -/
theorem trims_iff {text address : String} : Trims text address ↔ address = trimSlashes text := by
  constructor
  · rintro ⟨⟨count, hcount⟩, hends⟩
    rw [← String.toList_inj, toList_trimSlashes, hcount]
    clear hcount
    -- The slashes go one by one, and the last character in front of them is none.
    induction count with
    | zero =>
      rw [List.replicate_zero, List.append_nil, eq_comm, List.rdropWhile_eq_self_iff]
      intro hne hslash
      exact hends (by simpa [List.getLast?_eq_some_getLast hne] using hslash)
    | succ count ih =>
      rw [List.replicate_succ', ← List.append_assoc, List.rdropWhile_concat_pos _ _ _ (by decide)]
      exact ih
  · rintro rfl
    exact trims_trimSlashes text

/-! ## Keys at calendars -/

/-- One path has the same address at two calendars only if their addresses differ
in slashes at the end. -/
theorem endpoint_eq_iff {base other path : String} :
    endpoint base path = endpoint other path ↔ trimSlashes base = trimSlashes other := by
  rw [endpoint, endpoint, String.append_left_inj, String.append_left_inj]

/-- The address of a lookup tells the key. -/
theorem key_eq_of_lookup_url {base other : String} {key otherKey : CalendarKey}
    (h : (lookup base key).url = (lookup other otherKey).url) : key = otherKey := by
  have hhex := congrArg lastSegment h
  simp only [lookup, CalendarKey.toHex, lastSegment_endpoint] at hhex
  cases key
  cases otherKey
  exact congrArg CalendarKey.mk (Hex.encode_injective hhex)

/-- Two lookups have the same address exactly when they are for the same key at the
same calendar, whose address may be given with any number of slashes at its end. -/
theorem lookup_url_eq_iff (base other : String) (key otherKey : CalendarKey) :
    (lookup base key).url = (lookup other otherKey).url ↔
      key = otherKey ∧ ∃ address, Trims base address ∧ Trims other address := by
  have hsame : (∃ address, Trims base address ∧ Trims other address) ↔
      trimSlashes base = trimSlashes other := by
    simp [trims_iff]
  rw [hsame]
  constructor
  · intro h
    have hkey := key_eq_of_lookup_url h
    subst hkey
    exact ⟨rfl, endpoint_eq_iff.mp h⟩
  · rintro ⟨rfl, hbase⟩
    exact endpoint_eq_iff.mpr hbase

end CalendarStamp.Request
