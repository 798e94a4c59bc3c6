import CodeZard.Paths
import CodeZard.Percents

namespace CodeZard.Urls

open Paths Percents Upstreams

/-- Neither blank, control character nor outside of ASCII, nor the start of a
query or a fragment. -/
def Inert (c : Char) : Prop := 32 < c.toNat ∧ c.toNat < 127 ∧ c ∉ ['?', '#']

instance (c : Char) : Decidable (Inert c) := inferInstanceAs (Decidable (_ ∧ _))

/-- The characters of a URL that begin its query or its fragment. -/
def marks (url : List Char) : List Char := url.filter fun c => ['?', '#'].contains c

theorem isSafe_percent : isSafe '%' = false := by decide

def pathAlphabet : Alphabet where
  plain := isSafe
  ascii _ := isSafe_ascii
  percent := isSafe_percent

section Quoting

variable {c : Char} {cs : List Char}

theorem quote_eq (cs : List Char) : quote cs = pathAlphabet.escape (cs.flatMap String.utf8EncodeChar) :=
  List.flatMap_assoc.symm

theorem isSafe_inert (h : isSafe c = true) : Inert c := by
  rcases Bool.or_eq_true_iff.1 h with halnum | hsafe
  · have hmark : c ∉ ['?', '#'] := by
      intro hc
      simp only [List.mem_cons, List.not_mem_nil, or_false] at hc
      rcases hc with rfl | rfl <;> exact absurd halnum (by decide)
    have hrange := isAlphanum_range halnum
    exact ⟨by omega, by omega, hmark⟩
  · have hall : PATH_SAFE_CHARS.all (fun c => decide (Inert c)) = true := by decide
    exact of_decide_eq_true (List.all_eq_true.1 hall c (List.contains_iff_mem.1 hsafe))

theorem isHexDigit_inert (h : IsHexDigit c) : Inert c := by
  have hmark : c ∉ ['?', '#'] := by
    intro hc
    simp only [List.mem_cons, List.not_mem_nil, or_false] at hc
    rcases hc with rfl | rfl <;> exact absurd h (by decide)
  unfold IsHexDigit hexValue at h
  split at h
  · exact ⟨by omega, by omega, hmark⟩
  · split at h
    · exact ⟨by omega, by omega, hmark⟩
    · split at h
      · exact ⟨by omega, by omega, hmark⟩
      · exact Bool.noConfusion h

theorem quote_inert (h : c ∈ quote cs) : Inert c := by
  rw [quote_eq] at h
  rcases pathAlphabet.mem_escape _ h with hplain | rfl | hhex
  · exact isSafe_inert hplain
  · decide
  · exact isHexDigit_inert hhex

theorem quote_escaped (cs : List Char) : Escaped (quote cs) := by
  rw [quote_eq]
  exact pathAlphabet.escaped _

theorem decode_quote (cs : List Char) : decode (quote cs) = some cs := by
  rw [quote_eq]
  exact pathAlphabet.decode_escape cs

theorem quote_injective : Function.Injective quote := by
  intro cs ds h
  rw [quote_eq, quote_eq] at h
  exact pathAlphabet.escape_injective h

end Quoting

theorem marks_eq_nil {cs : List Char} (h : ∀ c ∈ cs, c ∉ ['?', '#']) : marks cs = [] := by
  apply List.filter_eq_nil_iff.2
  intro c hc
  rw [List.contains_iff_mem]
  exact h c hc

theorem marks_rstrip (base : List Char) : marks (rstrip base) = marks base := by
  induction base using List.reverseRecOn with
  | nil => rfl
  | append_singleton base c ih =>
      by_cases hc : c = '/'
      · subst hc
        have hstrip : rstrip (base ++ ['/']) = rstrip base := List.rdropWhile_concat_pos _ _ _ rfl
        have hslash : marks ['/'] = [] := by decide
        rw [hstrip, ih, marks, marks, List.filter_append, ← marks, ← marks, hslash, List.append_nil]
      · rw [rstrip, List.rdropWhile_concat_neg _ _ _ (by simpa using hc)]

theorem marks_joined (base path : List Char) : marks (rstrip base ++ '/' :: quote path) = marks base := by
  have hpath : marks ('/' :: quote path) = [] := marks_eq_nil fun c hc => not_mark_of_mem_quote hc
  rw [marks, List.filter_append, ← marks, ← marks, hpath, List.append_nil, marks_rstrip]

theorem url_of_server {r : OutboundRequest} {server : ServiceInstance} (h : resolvedInstance r = .ok server) :
    url r = .ok (String.ofList (rstrip server.baseUrl.toList ++ '/' :: quote (lstrip r.path.toList))) := by
  rw [url, h]
  rfl

/-- What is sent for a path can be read back, and for nothing else. -/
theorem path_faithful (r : OutboundRequest) (server : ServiceInstance) (hserver : resolvedInstance r = .ok server) :
    ∃ tail, url r = .ok (String.ofList (rstrip server.baseUrl.toList ++ '/' :: tail)) ∧
      (∀ c ∈ tail, Inert c) ∧ Escaped tail ∧ decode tail = some (lstrip r.path.toList) ∧
      (∀ r', resolvedInstance r' = .ok server → lstrip r'.path.toList ≠ lstrip r.path.toList → url r' ≠ url r) ∧
      marks (rstrip server.baseUrl.toList ++ '/' :: tail) = marks server.baseUrl.toList ∧
      ∀ b : BaseUrl, server.baseUrl.toList = b.text → b.suffix = [] →
        pathOf (rstrip server.baseUrl.toList ++ '/' :: tail) = rstrip b.path ++ '/' :: tail := by
  refine ⟨quote (lstrip r.path.toList), url_of_server hserver, ?_, ?_, ?_, ?_, ?_, ?_⟩
  · intro c hc
    exact quote_inert hc
  · exact quote_escaped _
  · exact decode_quote _
  · intro r' hserver' hne hurl
    rw [url_of_server hserver, url_of_server hserver'] at hurl
    have htext := List.append_cancel_left (String.ofList_injective (Except.ok.inj hurl))
    exact hne (quote_injective (List.cons_eq_cons.1 htext).2)
  · exact marks_joined _ _
  · intro b hbase hbare
    rw [hbase]
    exact pathOf_joined b hbare _

theorem path_faithful_escaped :
    url (managed "//a b/100%/\u00e9?x") = .ok "http://host:8000/pm/a%20b/100%25/%C3%A9%3Fx" ∧
      decode "a%20b/100%25/%C3%A9%3Fx".toList = some "a b/100%/\u00e9?x".toList := by
  obtain ⟨tail, hurl, _, _, hdecode, _⟩ := path_faithful (managed "//a b/100%/\u00e9?x") managerServer rfl
  have hsent : url (managed "//a b/100%/\u00e9?x") = .ok "http://host:8000/pm/a%20b/100%25/%C3%A9%3Fx" := by
    decide +kernel
  have hbase : rstrip managerServer.baseUrl.toList = "http://host:8000/pm".toList := by decide +kernel
  have hpath : lstrip (managed "//a b/100%/\u00e9?x").path.toList = "a b/100%/\u00e9?x".toList := by decide +kernel
  rw [hsent, hbase] at hurl
  have htail : "a%20b/100%25/%C3%A9%3Fx".toList = tail := by
    have hall : "http://host:8000/pm".toList ++ '/' :: "a%20b/100%25/%C3%A9%3Fx".toList =
        "http://host:8000/pm".toList ++ '/' :: tail :=
      (congrArg String.toList (Except.ok.inj hurl)).trans String.toList_ofList
    exact (List.cons_eq_cons.1 (List.append_cancel_left hall)).2
  rw [htail, hdecode, hpath]
  exact ⟨hsent, rfl⟩

end CodeZard.Urls
