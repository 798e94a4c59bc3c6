import CodeZard.Segments
import CodeZard.Upstreams

namespace CodeZard.Paths

open Segments Upstreams Values

def PATH_SAFE_CHARS : List Char := "/:@!$&'()*+,;=-._~".toList

def isSafe (c : Char) : Bool := c.isAlphanum || PATH_SAFE_CHARS.contains c

def HEX : List Char := "0123456789ABCDEF".toList

def quoteByte (b : UInt8) : List Char :=
  if isSafe (Char.ofNat b.toNat) then [Char.ofNat b.toNat]
  else ['%', HEX.getD (b.toNat / 16) '0', HEX.getD (b.toNat % 16) '0']

def quoteChar (c : Char) : List Char := (String.utf8EncodeChar c).flatMap quoteByte

def quote (cs : List Char) : List Char := cs.flatMap quoteChar

def lstrip (cs : List Char) : List Char := cs.dropWhile (· = '/')

def rstrip (cs : List Char) : List Char := cs.rdropWhile (· = '/')

def resolvedInstance (r : OutboundRequest) : Except Failure ServiceInstance :=
  match r.server, r.service.instances with
  | some server, _ => .ok server
  | none, [server] => .ok server
  | none, _ => .error (.exception "RuntimeError" ("No instance of '" ++ r.service.name ++ "' was chosen for this request"))

/-- The path arrives decoded, so it is escaped again. -/
def url (r : OutboundRequest) : Except Failure String :=
  (resolvedInstance r).map fun server =>
    String.ofList (rstrip server.baseUrl.toList ++ '/' :: quote (lstrip r.path.toList))

section Standard

/-- What stands between the authority of an absolute URL and its query or
fragment. -/
def pathOf (url : List Char) : List Char :=
  (((url.dropWhile (· ≠ ':')).drop 3).dropWhile (fun c => !(['/', '?', '#'].contains c))).takeWhile
    (fun c => !(['?', '#'].contains c))

def turnOf (segment : List Char) : Turn (List Char) :=
  if segment = ['.'] then .stay else if segment = ['.', '.'] then .up else .down segment

def segments (path : List Char) : List (List Char) := (path.splitOn '/').tail

def removeDots (path : List Char) : List (List Char) :=
  let turns := (segments path).map turnOf
  walk [] turns ++ match turns.getLast? with
    | some .stay | some .up => [[]]
    | _ => []

def trimmed (path : List (List Char)) : List (List Char) := path.rdropWhile (· = [])

/-- The segments of one URL's path are the first of those of another's, once dot
segments are removed from both. -/
def Under (base url : List Char) : Prop := trimmed (removeDots (pathOf base)) <+: removeDots (pathOf url)

instance (base url : List Char) : Decidable (Under base url) := inferInstanceAs (Decidable (_ <+: _))

/-- An absolute URL, in its parts. -/
structure BaseUrl where
  scheme : List Char
  authority : List Char
  path : List Char := []
  suffix : List Char := []
  scheme_plain : ':' ∉ scheme
  authority_some : authority ≠ []
  authority_plain : ∀ c ∈ authority, c ∉ ['/', '?', '#']
  path_rooted : ∀ c ∈ path.head?, c = '/'
  path_plain : ∀ c ∈ path, c ∉ ['?', '#']
  suffix_marked : ∀ c ∈ suffix.head?, c ∈ ['?', '#']

namespace BaseUrl

def origin (b : BaseUrl) : List Char := b.scheme ++ ':' :: '/' :: '/' :: b.authority

def text (b : BaseUrl) : List Char := b.origin ++ (b.path ++ b.suffix)

/-- The segments that requests are sent under. -/
def place (b : BaseUrl) : List (List Char) := walk [] ((segments (rstrip b.path)).map turnOf)

/-- The path of a request comes down through every segment of the base URL that
it climbs out of. A base URL with a query keeps its path whatever follows. -/
def Returns (b : BaseUrl) (path : List Char) : Prop :=
  let w := way (((lstrip path).splitOn '/').map turnOf)
  b.suffix ≠ [] ∨ (trimmed b.place).drop (b.place.length - w.ups) <+: w.names.map quote

instance (b : BaseUrl) (path : List Char) : Decidable (b.Returns path) := inferInstanceAs (Decidable (_ ∨ _))

end BaseUrl

end Standard

section Quoting

variable {c x : Char} {cs : List Char}

theorem isAlphanum_range (h : c.isAlphanum = true) :
    (65 ≤ c.toNat ∧ c.toNat ≤ 90 ∨ 97 ≤ c.toNat ∧ c.toNat ≤ 122) ∨ 48 ≤ c.toNat ∧ c.toNat ≤ 57 := by
  change ((decide (c.val ≥ 65 ∧ c.val ≤ 90) || (decide (c.val ≥ 97) && decide (c.val ≤ 122))) ||
    (decide (c.val ≥ 48) && decide (c.val ≤ 57))) = true at h
  simp only [Bool.or_eq_true, Bool.and_eq_true, decide_eq_true_eq, UInt32.le_iff_toNat_le, ge_iff_le] at h
  exact h

theorem isSafe_ascii (h : isSafe c = true) : c.toNat < 128 := by
  rcases Bool.or_eq_true_iff.1 h with h | h
  · have hrange := isAlphanum_range h
    omega
  · have hall : PATH_SAFE_CHARS.all (fun c => decide (c.toNat < 128)) = true := by decide
    exact of_decide_eq_true (List.all_eq_true.1 hall c (List.contains_iff_mem.1 h))

theorem quoteByte_cases (b : UInt8) :
    isSafe (Char.ofNat b.toNat) = true ∧ quoteByte b = [Char.ofNat b.toNat] ∨
      isSafe (Char.ofNat b.toNat) = false ∧ ∃ x y, quoteByte b = ['%', x, y] ∧ x ∈ HEX ∧ y ∈ HEX := by
  unfold quoteByte
  cases hs : isSafe (Char.ofNat b.toNat) with
  | true => exact .inl ⟨rfl, rfl⟩
  | false =>
      have hhex (n : Nat) (hn : n < 16) : HEX.getD n '0' ∈ HEX := by
        have hlen : HEX.length = 16 := by decide
        rw [List.getD_eq_getElem?_getD, List.getElem?_eq_getElem (hlen ▸ hn)]
        exact List.getElem_mem _
      have hb := b.toNat_lt
      exact .inr ⟨rfl, _, _, rfl, hhex _ (by omega), hhex _ (by omega)⟩

theorem quoteByte_ne_nil (b : UInt8) : quoteByte b ≠ [] := by
  unfold quoteByte
  split <;> simp

theorem quoteBytes_large (bs : List UInt8) (h : ∀ b ∈ bs, 128 ≤ b.toNat) (x : Char) (hx : x ∈ bs.flatMap quoteByte) :
    x ∈ '%' :: HEX := by
  obtain ⟨b, hb, hx⟩ := List.mem_flatMap.1 hx
  rcases quoteByte_cases b with ⟨hs, -⟩ | ⟨-, y, z, hq, hy, hz⟩
  · have hsmall := isSafe_ascii hs
    have hlarge := h b hb
    have hvalid : b.toNat.isValidChar := .inl (lt_trans b.toNat_lt (by decide))
    rw [Char.ofNat, dif_pos hvalid] at hsmall
    have hval : (Char.ofNatAux b.toNat hvalid).toNat = b.toNat := rfl
    omega
  · rw [hq] at hx
    simp only [List.mem_cons, List.not_mem_nil, or_false] at hx
    rcases hx with rfl | rfl | rfl
    · exact List.mem_cons_self
    · exact List.mem_cons_of_mem _ hy
    · exact List.mem_cons_of_mem _ hz

theorem utf8_large (h : 128 ≤ c.toNat) : ∀ b ∈ String.utf8EncodeChar c, 128 ≤ b.toNat := by
  have hval : c.val.toNat = c.toNat := rfl
  unfold String.utf8EncodeChar
  simp only [hval]
  intro b hb
  split at hb
  · omega
  · split at hb
    · simp only [List.mem_cons, List.not_mem_nil, or_false] at hb
      rcases hb with rfl | rfl <;> simp <;> omega
    · split at hb
      · simp only [List.mem_cons, List.not_mem_nil, or_false] at hb
        rcases hb with rfl | rfl | rfl <;> simp <;> omega
      · simp only [List.mem_cons, List.not_mem_nil, or_false] at hb
        rcases hb with rfl | rfl | rfl | rfl <;> simp <;> omega

theorem quoteChar_cases (c : Char) :
    isSafe c = true ∧ quoteChar c = [c] ∨ isSafe c = false ∧ quoteChar c ≠ [] ∧ ∀ x ∈ quoteChar c, x ∈ '%' :: HEX := by
  have hval : c.val.toNat = c.toNat := rfl
  rcases lt_or_ge c.toNat 128 with hsmall | hlarge
  · have hone : String.utf8EncodeChar c = [UInt8.ofNat c.toNat] := by
      unfold String.utf8EncodeChar
      simp only [hval]
      exact if_pos (by omega)
    have hsame : Char.ofNat (UInt8.ofNat c.toNat).toNat = c := by
      rw [UInt8.toNat_ofNat', Nat.mod_eq_of_lt (by omega), Char.ofNat_toNat]
    rcases quoteByte_cases (UInt8.ofNat c.toNat) with ⟨hs, hq⟩ | ⟨hs, x, y, hq, hx, hy⟩
    · rw [hsame] at hs hq
      refine .inl ⟨hs, ?_⟩
      rw [quoteChar, hone, List.flatMap_singleton, hq]
    · rw [hsame] at hs
      refine .inr ⟨hs, ?_, ?_⟩
      · rw [quoteChar, hone, List.flatMap_singleton, hq]
        simp
      · rw [quoteChar, hone, List.flatMap_singleton, hq]
        simp [hx, hy]
  · refine .inr ⟨?_, ?_, quoteBytes_large _ (utf8_large hlarge)⟩
    · by_contra hs
      have := isSafe_ascii (eq_true_of_ne_false hs)
      omega
    · obtain ⟨b, bs, hbs⟩ := List.exists_cons_of_ne_nil (String.utf8EncodeChar_ne_nil (c := c))
      rw [quoteChar, hbs, List.flatMap_cons]
      exact List.append_ne_nil_of_left_ne_nil (quoteByte_ne_nil b) _

theorem mem_quoteChar_iff (hx : x ∉ '%' :: HEX) (hs : isSafe x = true) : x ∈ quoteChar c ↔ x = c := by
  rcases quoteChar_cases c with ⟨-, hq⟩ | ⟨hc, -, hq⟩
  · rw [hq, List.mem_singleton]
  · refine iff_of_false (fun h => hx (hq x h)) ?_
    rintro rfl
    rw [hs] at hc
    exact Bool.noConfusion hc

theorem not_mem_quote (hx : x ∉ '%' :: HEX) (hs : isSafe x = false) (cs : List Char) : x ∉ quote cs := by
  intro h
  obtain ⟨c, -, h⟩ := List.mem_flatMap.1 h
  rcases quoteChar_cases c with ⟨hc, hq⟩ | ⟨-, -, hq⟩
  · rw [hq, List.mem_singleton] at h
    rw [← h, hs] at hc
    exact Bool.noConfusion hc
  · exact hx (hq x h)

theorem quote_plain (h : ∀ x ∈ quote cs, x ∉ '%' :: HEX) : quote cs = cs := by
  induction cs with
  | nil => rfl
  | cons c cs ih =>
      have hcons : quote (c :: cs) = quoteChar c ++ quote cs := List.flatMap_cons
      rw [hcons] at h ⊢
      rw [ih fun x hx => h x (List.mem_append_right _ hx)]
      rcases quoteChar_cases c with ⟨-, hq⟩ | ⟨-, hne, hq⟩
      · rw [hq, List.singleton_append]
      · obtain ⟨x, xs, hxs⟩ := List.exists_cons_of_ne_nil hne
        have hx : x ∈ quoteChar c := hxs ▸ List.mem_cons_self
        exact absurd (hq x hx) (h x (List.mem_append_left _ hx))

theorem turnOf_quote (cs : List Char) : turnOf (quote cs) = (turnOf cs).map quote := by
  have hdots (n : Nat) : quote cs = List.replicate n '.' → cs = List.replicate n '.' := by
    intro h
    have hplain : quote cs = cs := quote_plain (by
      intro x hx
      rw [h] at hx
      rw [List.eq_of_mem_replicate hx]
      decide)
    rw [← hplain, h]
  have hone : quote ['.'] = ['.'] := by decide
  have htwo : quote ['.', '.'] = ['.', '.'] := by decide
  by_cases hstay : cs = ['.']
  · subst hstay
    rw [hone]
    rfl
  · by_cases hup : cs = ['.', '.']
    · subst hup
      rw [htwo]
      rfl
    · have hstay' : quote cs ≠ ['.'] := fun h => hstay (hdots 1 h)
      have hup' : quote cs ≠ ['.', '.'] := fun h => hup (hdots 2 h)
      simp only [turnOf, if_neg hstay, if_neg hup, if_neg hstay', if_neg hup', Turn.map]

end Quoting

section Splitting

variable {α : Type} [BEq α] [LawfulBEq α] {a : α}

theorem splitOn_append {us : List α} (h : a ∉ us) (vs : List α) :
    (us ++ vs).splitOn a = (vs.splitOn a).modifyHead (us ++ ·) := by
  induction us with
  | nil =>
      obtain ⟨v, rest, hv⟩ := List.exists_cons_of_ne_nil (List.splitOn_ne_nil a vs)
      rw [List.nil_append, hv]
      rfl
  | cons u us ih =>
      have hu : (u == a) = false := beq_eq_false_iff_ne.2 fun hua => h (hua ▸ List.mem_cons_self)
      rw [List.cons_append, List.splitOn_cons_eq_if_modifyHead, hu, ih fun hmem => h (List.mem_cons_of_mem _ hmem),
        List.modifyHead_modifyHead]
      rfl

theorem splitOn_flatMap {f : α → List α} (hself : f a = [a]) (hother : ∀ x, x ≠ a → a ∉ f x) (xs : List α) :
    (xs.flatMap f).splitOn a = (xs.splitOn a).map (List.flatMap f) := by
  induction xs with
  | nil => rfl
  | cons x xs ih =>
      rw [List.flatMap_cons, List.splitOn_cons_eq_if_modifyHead]
      by_cases hx : x = a
      · subst hx
        rw [hself, List.singleton_append, List.splitOn_cons_eq_if_modifyHead, beq_self_eq_true, if_pos rfl, if_pos rfl, ih]
        rfl
      · have hne : (x == a) = false := beq_eq_false_iff_ne.2 hx
        rw [splitOn_append (hother x hx), ih, hne, if_neg Bool.false_ne_true]
        obtain ⟨v, rest, hv⟩ := List.exists_cons_of_ne_nil (List.splitOn_ne_nil a xs)
        rw [hv]
        rfl

end Splitting

theorem splitOn_quote (cs : List Char) : (quote cs).splitOn '/' = (cs.splitOn '/').map quote := by
  refine splitOn_flatMap (by decide) ?_ cs
  intro x hx h
  exact hx ((mem_quoteChar_iff (by decide) (by decide)).1 h).symm

section Reading

variable (b : BaseUrl) {rest : List Char}

theorem pathOf_origin (hrest : ∀ c ∈ rest.head?, c ∈ ['/', '?', '#']) :
    pathOf (b.origin ++ rest) = rest.takeWhile fun c => !(['?', '#'].contains c) := by
  have hscheme : (b.origin ++ rest).dropWhile (· ≠ ':') = ':' :: '/' :: '/' :: (b.authority ++ rest) := by
    rw [BaseUrl.origin, List.append_assoc, List.dropWhile_append_of_pos]
    · rfl
    · intro c hc
      exact decide_eq_true fun h => b.scheme_plain (h ▸ hc)
  have hauthority : (b.authority ++ rest).dropWhile (fun c => !(['/', '?', '#'].contains c)) = rest := by
    rw [List.dropWhile_append_of_pos]
    · cases rest with
      | nil => rfl
      | cons c rest =>
          have hc := List.contains_iff_mem.2 (hrest c rfl)
          rw [List.dropWhile_cons_of_neg]
          rw [hc]
          exact Bool.false_ne_true
    · intro c hc
      have hout := b.authority_plain c hc
      rw [← List.contains_iff_mem, Bool.not_eq_true] at hout
      rw [hout]
      rfl
  rw [pathOf, hscheme]
  exact congrArg _ hauthority

theorem takeWhile_path {path suffix : List Char} (hplain : ∀ c ∈ path, c ∉ ['?', '#'])
    (hmarked : ∀ c ∈ suffix.head?, c ∈ ['?', '#']) :
    (path ++ suffix).takeWhile (fun c => !(['?', '#'].contains c)) = path := by
  rw [List.takeWhile_append_of_pos]
  · cases suffix with
    | nil => exact List.append_nil _
    | cons c suffix =>
        have hc := List.contains_iff_mem.2 (hmarked c rfl)
        rw [List.takeWhile_cons_of_neg, List.append_nil]
        rw [hc]
        exact Bool.false_ne_true
  · intro c hc
    have hout := hplain c hc
    rw [← List.contains_iff_mem, Bool.not_eq_true] at hout
    rw [hout]
    rfl

theorem pathOf_parts {path suffix : List Char} (hrooted : ∀ c ∈ path.head?, c = '/')
    (hplain : ∀ c ∈ path, c ∉ ['?', '#']) (hmarked : ∀ c ∈ suffix.head?, c ∈ ['?', '#']) :
    pathOf (b.origin ++ (path ++ suffix)) = path := by
  rw [pathOf_origin b, takeWhile_path hplain hmarked]
  intro c hc
  cases path with
  | nil => exact List.mem_cons_of_mem _ (hmarked c hc)
  | cons d path =>
      rw [hrooted c hc]
      exact List.mem_cons_self

theorem pathOf_text : pathOf b.text = b.path := pathOf_parts b b.path_rooted b.path_plain b.suffix_marked

theorem rstrip_origin (cs : List Char) : rstrip (b.origin ++ cs) = b.origin ++ rstrip cs := by
  have hne : b.origin ≠ [] := List.append_ne_nil_of_right_ne_nil _ (List.cons_ne_nil _ _)
  have hlast : b.origin.getLast hne = b.authority.getLast b.authority_some := by
    simp only [BaseUrl.origin]
    rw [List.getLast_append_of_ne_nil _ (List.cons_ne_nil _ _), List.getLast_cons (List.cons_ne_nil _ _),
      List.getLast_cons (List.cons_ne_nil _ _), List.getLast_cons b.authority_some]
  refine rdropWhile_append _ hne ?_ cs
  rw [hlast]
  refine decide_eq_false fun h => ?_
  refine b.authority_plain _ (List.getLast_mem b.authority_some) ?_
  rw [h]
  exact List.mem_cons_self

theorem rstrip_path_rooted : ∀ c ∈ (rstrip b.path).head?, c = '/' := by
  intro c hc
  obtain ⟨rest, hrest⟩ := List.rdropWhile_prefix (· = '/') b.path
  refine b.path_rooted c ?_
  rw [← hrest, List.head?_append, show (b.path.rdropWhile (· = '/')).head? = some c from hc]
  rfl

theorem not_mark_of_mem_quote {cs : List Char} {c : Char} (hc : c ∈ '/' :: quote cs) : c ∉ ['?', '#'] := by
  intro hmark
  simp only [List.mem_cons, List.not_mem_nil, or_false] at hmark
  rcases hmark with rfl | rfl
  · exact not_mem_quote (by decide) (by decide) cs ((List.mem_cons.1 hc).resolve_left (by decide))
  · exact not_mem_quote (by decide) (by decide) cs ((List.mem_cons.1 hc).resolve_left (by decide))

theorem pathOf_joined (hbare : b.suffix = []) (cs : List Char) :
    pathOf (rstrip b.text ++ '/' :: quote cs) = rstrip b.path ++ '/' :: quote cs := by
  have hurl : rstrip b.text ++ '/' :: quote cs = b.origin ++ ((rstrip b.path ++ '/' :: quote cs) ++ []) := by
    rw [BaseUrl.text, rstrip_origin, hbare, List.append_nil, List.append_nil, List.append_assoc]
  rw [hurl]
  refine pathOf_parts b ?_ ?_ fun c hc => by simp at hc
  · intro c hc
    rw [List.head?_append] at hc
    cases hhead : (rstrip b.path).head? with
    | some d => exact rstrip_path_rooted b c (by rwa [hhead] at hc ⊢)
    | none =>
        rw [hhead] at hc
        exact (Option.some.inj hc).symm
  · intro c hc
    rcases List.mem_append.1 hc with hc | hc
    · exact b.path_plain c ((List.rdropWhile_prefix _ _).subset hc)
    · exact not_mark_of_mem_quote hc

theorem pathOf_behind (hmarked : b.suffix ≠ []) (cs : List Char) :
    pathOf (rstrip b.text ++ '/' :: quote cs) = b.path := by
  obtain ⟨mark, rest, hsuffix⟩ := List.exists_cons_of_ne_nil hmarked
  have hmark : mark ∈ ['?', '#'] := b.suffix_marked mark (by rw [hsuffix]; rfl)
  have hother : mark ≠ '/' := by
    rintro rfl
    exact absurd hmark (by decide)
  have hkept : rstrip (b.path ++ b.suffix) = b.path ++ mark :: rstrip rest := by
    have hcut : b.path ++ b.suffix = (b.path ++ [mark]) ++ rest := by rw [hsuffix, List.append_assoc]; rfl
    have hne : b.path ++ [mark] ≠ [] := List.append_ne_nil_of_right_ne_nil _ (List.cons_ne_nil _ _)
    rw [hcut, rstrip, rdropWhile_append _ hne, List.append_assoc]
    · rfl
    · rw [List.getLast_append_singleton]
      exact decide_eq_false hother
  have hurl : rstrip b.text ++ '/' :: quote cs = b.origin ++ (b.path ++ mark :: (rstrip rest ++ '/' :: quote cs)) := by
    rw [BaseUrl.text, rstrip_origin, hkept]
    simp only [List.append_assoc, List.cons_append]
  rw [hurl]
  refine pathOf_parts b b.path_rooted b.path_plain ?_
  intro c hc
  rw [← Option.some.inj hc]
  exact hmark

end Reading

section Dots

theorem segments_joined (path rest : List Char) :
    segments (path ++ '/' :: rest) = segments path ++ rest.splitOn '/' := by
  rw [segments, List.splitOn_append_cons_self, List.tail_append_of_ne_nil (List.splitOn_ne_nil _ _)]
  rfl

theorem trimmed_rstrip (path : List Char) :
    trimmed (walk [] ((segments path).map turnOf)) = trimmed (walk [] ((segments (rstrip path)).map turnOf)) := by
  induction path using List.reverseRecOn with
  | nil => rfl
  | append_singleton path c ih =>
      by_cases hc : c = '/'
      · subst hc
        have hstrip : rstrip (path ++ ['/']) = rstrip path := List.rdropWhile_concat_pos _ _ _ rfl
        have hempty : ([].splitOn '/').map turnOf = [.down []] := rfl
        rw [hstrip, ← ih, segments_joined, List.map_append, walk_append, hempty]
        exact List.rdropWhile_concat_pos _ _ _ rfl
      · have hstrip : rstrip (path ++ [c]) = path ++ [c] := List.rdropWhile_concat_neg _ _ _ (by simpa using hc)
        rw [hstrip]

theorem removeDots_cases (path : List Char) :
    removeDots path = walk [] ((segments path).map turnOf) ∨
      removeDots path = walk [] ((segments path).map turnOf) ++ [[]] := by
  unfold removeDots
  dsimp only
  split
  · exact .inr rfl
  · exact .inr rfl
  · exact .inl (List.append_nil _)

theorem trimmed_removeDots (path : List Char) :
    trimmed (removeDots path) = trimmed (walk [] ((segments path).map turnOf)) := by
  rcases removeDots_cases path with h | h
  · rw [h]
  · rw [h]
    exact List.rdropWhile_concat_pos _ _ _ rfl

theorem trimmed_prefix_iff (place path : List (List Char)) : trimmed place <+: path ++ [[]] ↔ trimmed place <+: path := by
  rw [List.prefix_concat_iff, or_iff_right]
  intro h
  have hagain : trimmed (trimmed place) = trimmed place := List.rdropWhile_idempotent _ _
  have hcut : trimmed (path ++ [[]]) = trimmed path := List.rdropWhile_concat_pos _ _ _ rfl
  rw [h, hcut] at hagain
  have hlen := (List.rdropWhile_prefix (· = []) path).length_le
  have hlen' := congrArg List.length hagain
  rw [List.length_append, List.length_singleton] at hlen'
  exact absurd (hlen'.symm.trans_le hlen) (Nat.not_succ_le_self _)

end Dots

theorem under_joined_iff (b : BaseUrl) (path : List Char) :
    Under b.text (rstrip b.text ++ '/' :: quote (lstrip path)) ↔ b.Returns path := by
  unfold Under
  rw [pathOf_text]
  by_cases hbare : b.suffix = []
  · rw [pathOf_joined b hbare, trimmed_removeDots, trimmed_rstrip]
    have hwalk : walk [] ((segments (rstrip b.path ++ '/' :: quote (lstrip path))).map turnOf) =
        ((way (((lstrip path).splitOn '/').map turnOf)).map quote).apply b.place := by
      have hturns : ((quote (lstrip path)).splitOn '/').map turnOf =
          (((lstrip path).splitOn '/').map turnOf).map (Turn.map quote) := by
        rw [splitOn_quote, List.map_map, List.map_map]
        exact List.map_congr_left fun segment _ => turnOf_quote segment
      rw [segments_joined, List.map_append, walk_append, hturns, walk_eq, way_map]
      rfl
    have hiff : trimmed b.place <+: removeDots (rstrip b.path ++ '/' :: quote (lstrip path)) ↔
        trimmed b.place <+: ((way (((lstrip path).splitOn '/').map turnOf)).map quote).apply b.place := by
      rcases removeDots_cases (rstrip b.path ++ '/' :: quote (lstrip path)) with h | h
      · rw [h, hwalk]
      · rw [h, hwalk, trimmed_prefix_iff]
    refine hiff.trans ((below_iff (List.rdropWhile_prefix _ _) _).trans ?_)
    exact (or_iff_right (not_not.2 hbare)).symm
  · rw [pathOf_behind b hbare, trimmed_removeDots]
    refine iff_of_true ?_ (.inl hbare)
    rcases removeDots_cases b.path with h | h
    · rw [h]
      exact List.rdropWhile_prefix _ _
    · rw [h, trimmed_prefix_iff]
      exact List.rdropWhile_prefix _ _

/-- A request stays under the base URL of its server exactly when its path comes
back down through whatever it climbs out of. -/
theorem stays_under_iff (r : OutboundRequest) (server : ServiceInstance) (b : BaseUrl)
    (hserver : resolvedInstance r = .ok server) (hbase : server.baseUrl.toList = b.text) :
    ∃ u, url r = .ok u ∧ (Under server.baseUrl.toList u.toList ↔ b.Returns r.path.toList) := by
  refine ⟨String.ofList (rstrip server.baseUrl.toList ++ '/' :: quote (lstrip r.path.toList)), ?_, ?_⟩
  · rw [url, hserver]
    rfl
  · rw [String.toList_ofList, hbase]
    exact under_joined_iff b _

def manager : BaseUrl where
  scheme := "http".toList
  authority := "host:8000".toList
  path := "/pm".toList
  scheme_plain := by simp
  authority_some := by simp
  authority_plain := by simp
  path_rooted := by simp
  path_plain := by simp
  suffix_marked := by simp

def managerServer : ServiceInstance := ⟨"http://host:8000/pm", "cd34ef56"⟩

def managed (path : String) : OutboundRequest where
  service := ⟨"mirag", [managerServer], by decide, by decide⟩
  method := "GET"
  path := path

theorem stays_under_back :
    ∃ u, url (managed "../pm/a b") = .ok u ∧ Under managerServer.baseUrl.toList u.toList := by
  obtain ⟨u, hu, h⟩ := stays_under_iff (managed "../pm/a b") managerServer manager rfl (by decide)
  exact ⟨u, hu, h.2 (by decide)⟩

/-- A path with an escaped slash reaches the server beside the base URL. -/
theorem leaves_base :
    ¬ ∀ (r : OutboundRequest) (server : ServiceInstance) (b : BaseUrl), resolvedInstance r = .ok server →
      server.baseUrl.toList = b.text → ∃ u, url r = .ok u ∧ Under server.baseUrl.toList u.toList := by
  intro h
  obtain ⟨u, hu, hunder⟩ := h (managed "../backend/api") managerServer manager rfl (by decide)
  have hurl : url (managed "../backend/api") = .ok "http://host:8000/pm/../backend/api" := by decide
  rw [hurl] at hu
  rw [← Except.ok.inj hu] at hunder
  revert hunder
  decide

end CodeZard.Paths
