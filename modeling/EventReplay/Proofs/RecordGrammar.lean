import EventReplay.Proofs.LogToStream
import EventReplay.Proofs.ValueBoundary

/-!
# The lexemes of a record are a value

Whatever line the readers take for a record of a log or for records of a stream, its lexemes are those of
one JSON value (`LogLine.skips_of_readFields`, `Record.skips_of_ofLexemes`).
-/

set_option autoImplicit false

namespace EventReplay

open Json (Lexeme Need Skips Bracket)

namespace Json

variable {opened : List Bracket} {need : Need} {ls vs rest : List Lexeme}

/-- A value inside a container, with the rest of the container behind it. -/
theorem Skips.inside (h : Skips opened need vs) (hroot : opened = [] → need = .value) {b : Bracket}
    {bs : List Bracket} (hrest : Skips (b :: bs) b.more rest) :
    Skips (opened ++ b :: bs) need (vs ++ rest) := by
  induction h with
  | @last opened need l m hm hlast =>
      have hnext : advance (opened ++ b :: bs) m = some (b :: bs, b.more) := by
        cases m with
        | scalar =>
            cases opened with
            | nil => rfl
            | cons c cs => simp [advance] at hlast
        | closing =>
            rcases opened with _ | ⟨c, _ | ⟨c', cs⟩⟩
            · exact absurd (starts_of_move (hroot rfl ▸ hm)) (by simp)
            · rfl
            · simp [advance] at hlast
        | _ => simp [advance] at hlast
      exact .next hm hnext hrest
  | @next opened opened' need need' l vs m hm hnext _ ih =>
      obtain ⟨hne, -⟩ := level_of_advance hroot hm hnext
      have hnext' : advance (opened ++ b :: bs) m = some (opened' ++ b :: bs, need') := by
        cases m with
        | scalar =>
            cases opened with
            | nil => simp [advance] at hnext
            | cons c cs =>
                obtain ⟨rfl, rfl⟩ : c :: cs = opened' ∧ c.more = need' := by simpa [advance] using hnext
                rfl
        | closing =>
            rcases opened with _ | ⟨c, _ | ⟨c', cs⟩⟩
            · simp [advance] at hnext
            · simp [advance] at hnext
            · obtain ⟨rfl, rfl⟩ : c' :: cs = opened' ∧ c'.more = need' := by simpa [advance] using hnext
              rfl
        | _ =>
            simp only [advance, Option.some.injEq, Prod.mk.injEq] at hnext ⊢
            obtain ⟨rfl, rfl⟩ := hnext
            exact ⟨rfl, rfl⟩
      exact .next hm hnext' (ih fun hnil => absurd hnil hne)

/-- A value in front of the rest of the container that it stands in. -/
theorem Skips.item (h : Skips [] .value vs) {b : Bracket} {bs : List Bracket}
    (hrest : Skips (b :: bs) b.more rest) : Skips (b :: bs) .value (vs ++ rest) :=
  h.inside (fun _ => rfl) hrest

/-- So may the first item of an array stand. -/
theorem Skips.firstItem {bs : List Bracket} (h : Skips bs .value ls)
    (hfirst : ∀ l ∈ ls.head?, l.token ≠ .closeArray) : Skips bs .firstItem ls := by
  have hsame : ∀ l : Lexeme, l.token ≠ .closeArray → move .firstItem l.token = move .value l.token := by
    intro l hl
    simp only [move, hl, if_false]
  cases h with
  | last hm hlast => exact .last ((hsame _ (hfirst _ rfl)).trans hm) hlast
  | next hm hnext hskips => exact .next ((hsame _ (hfirst _ rfl)).trans hm) hnext hskips

/-- An item behind a comma. -/
theorem Skips.comma {bs : List Bracket} (h : Skips (.array :: bs) .value ls) {c : Lexeme}
    (hc : c.token = .comma) : Skips (.array :: bs) .moreItems (c :: ls) := by
  have hm : move .moreItems c.token = .ok (.separator .value) := by
    rw [hc]
    rfl
  exact .next hm rfl h

/-- The end of an array. -/
theorem skips_closeArray {l : Lexeme} (hl : l.token = .closeArray) : Skips [.array] .moreItems [l] := by
  have hm : move .moreItems l.token = .ok .closing := by
    rw [hl]
    rfl
  exact .last hm rfl

theorem skips_of_readValue {room : Nat} {v : Value} {ls rest : List Lexeme}
    (h : readValue room [] .value ls = .ok (v, rest)) :
    ∃ taken, ls = taken ++ rest ∧ Skips [] .value taken := by
  obtain ⟨taken, hls, hreads⟩ := readValue_eq_ok.mp h
  exact ⟨taken, hls, hreads.skips rfl⟩

end Json

open Json (Value)

/-! ## Lines of a log -/

namespace LogLine

theorem skips_of_readTime {ls rest : List Lexeme} {time : Time} (h : readTime ls = some (time, rest)) :
    ∃ l, ls = l :: rest ∧ Json.startValue l.token = .ok .scalar := by
  cases ls with
  | nil => simp [readTime] at h
  | cons l ls =>
      rw [readTime] at h
      split at h
      next n htoken =>
        split at h
        next t _ =>
          split at h
          · obtain ⟨-, rfl⟩ := Prod.mk.inj (Option.some.inj h)
            exact ⟨l, rfl, by rw [htoken]; rfl⟩
          · simp at h
        · simp at h
      next body htoken =>
        obtain ⟨s, -, heq⟩ := Option.map_eq_some_iff.mp h
        obtain ⟨-, rfl⟩ := Prod.mk.inj heq
        exact ⟨l, rfl, by rw [htoken]; rfl⟩
      · simp at h

theorem skips_of_readKey {ls rest : List Lexeme} {key : Option String} (h : readKey ls = some (key, rest)) :
    ∃ l, ls = l :: rest ∧ Json.startValue l.token = .ok .scalar := by
  cases ls with
  | nil => simp [readKey] at h
  | cons l ls =>
      rw [readKey] at h
      split at h
      next htoken =>
        obtain ⟨-, rfl⟩ := Prod.mk.inj (Option.some.inj h)
        exact ⟨l, rfl, by rw [htoken]; rfl⟩
      next body htoken =>
        obtain ⟨s, -, heq⟩ := Option.map_eq_some_iff.mp h
        obtain ⟨-, rfl⟩ := Prod.mk.inj heq
        exact ⟨l, rfl, by rw [htoken]; rfl⟩
      · simp at h

theorem skips_of_readMember {fields fields' : Fields} {name : String} {ls rest : List Lexeme}
    (h : readMember fields name ls = some (fields', rest)) :
    ∃ taken, ls = taken ++ rest ∧ Skips [] .value taken := by
  have hscalar : ∀ {rest : List Lexeme}, (∃ l, ls = l :: rest ∧ Json.startValue l.token = .ok .scalar) →
      ∃ taken, ls = taken ++ rest ∧ Skips [] .value taken := by
    rintro rest ⟨l, rfl, hl⟩
    exact ⟨[l], rfl, .last hl rfl⟩
  unfold readMember at h
  split at h
  · split at h
    · simp at h
    · obtain ⟨⟨time, rest'⟩, hread, heq⟩ := Option.map_eq_some_iff.mp h
      obtain ⟨-, rfl⟩ := Prod.mk.inj heq
      exact hscalar (skips_of_readTime hread)
  · split at h
    · split at h
      · simp at h
      · obtain ⟨⟨key, rest'⟩, hread, heq⟩ := Option.map_eq_some_iff.mp h
        obtain ⟨-, rfl⟩ := Prod.mk.inj heq
        exact hscalar (skips_of_readKey hread)
    · split at h
      · split at h
        · simp at h
        · obtain ⟨⟨payload, rest'⟩, hread, heq⟩ := Option.map_eq_some_iff.mp h
          obtain ⟨-, rfl⟩ := Prod.mk.inj heq
          obtain ⟨taken, hls, hskips, -⟩ := readPayload_eq_some.mp hread
          exact ⟨taken, hls, hskips⟩
      · obtain ⟨⟨taken, rest'⟩, hskip, heq⟩ := Option.map_eq_some_iff.mp h
        obtain ⟨-, rfl⟩ := Prod.mk.inj heq
        exact ⟨taken, Json.skipValue_eq_some.mp hskip⟩

theorem skips_of_readMembers {fuel : Nat} {fields fields' : Fields} {need : Need}
    {ls rest : List Lexeme} (h : readMembers fuel fields need ls = some (fields', rest)) :
    ∃ taken, ls = taken ++ rest ∧ Skips [.object] need taken := by
  induction fuel generalizing fields need ls with
  | zero => simp [readMembers] at h
  | succ fuel ih =>
      cases ls with
      | nil => simp [readMembers] at h
      | cons l ls =>
          rw [readMembers] at h
          split at h
          next hm =>
            obtain ⟨-, rfl⟩ := Prod.mk.inj (Option.some.inj h)
            exact ⟨[l], rfl, .last hm rfl⟩
          next next hm =>
            obtain ⟨taken, rfl, hskips⟩ := ih h
            exact ⟨l :: taken, rfl, .next hm rfl hskips⟩
          next body hm htoken =>
            split at h
            next name colon ls _ =>
              split at h
              next hcolon =>
                split at h
                next fields₁ rest₁ hmember =>
                  obtain ⟨value, rfl, hvalue⟩ := skips_of_readMember hmember
                  obtain ⟨taken, rfl, hskips⟩ := ih h
                  refine ⟨l :: colon :: (value ++ taken), by simp, .next hm rfl ?_⟩
                  have hseparates : Json.move .colon colon.token = .ok (.separator .value) := by
                    rw [hcolon]
                    rfl
                  exact .next hseparates rfl (hvalue.item hskips)
                · simp at h
              · simp at h
            · simp at h
          · simp at h

theorem skips_of_readItems {ls rest : List Lexeme} {fields : Fields}
    (h : readItems ls = some (fields, rest)) :
    ∃ taken, ls = taken ++ rest ∧ Skips [.array] .firstItem taken := by
  simp only [readItems, Option.bind_eq_bind, Option.bind_eq_some_iff, Prod.exists] at h
  obtain ⟨time, ls₁, htime, ls₂, hcomma₁, key, ls₃, hkey, ls₄, hcomma₂, payload, ls₅, hpayload, hend⟩ := h
  obtain ⟨l₁, rfl, hl₁⟩ := skips_of_readTime htime
  obtain ⟨c₁, hc₁, rfl⟩ : ∃ c : Lexeme, c.token = .comma ∧ ls₁ = c :: ls₂ := by
    split at hcomma₁
    next c rest' =>
      rw [Option.ite_none_right_eq_some] at hcomma₁
      exact ⟨c, hcomma₁.1, congrArg _ (Option.some.inj hcomma₁.2)⟩
    next => simp at hcomma₁
  obtain ⟨l₂, rfl, hl₂⟩ := skips_of_readKey hkey
  obtain ⟨c₂, hc₂, rfl⟩ : ∃ c : Lexeme, c.token = .comma ∧ ls₃ = c :: ls₄ := by
    split at hcomma₂
    next c rest' =>
      rw [Option.ite_none_right_eq_some] at hcomma₂
      exact ⟨c, hcomma₂.1, congrArg _ (Option.some.inj hcomma₂.2)⟩
    next => simp at hcomma₂
  obtain ⟨value, rfl, hvalue, -⟩ := readPayload_eq_some.mp hpayload
  split at hend
  next l ls' =>
    rw [Option.ite_none_right_eq_some] at hend
    obtain ⟨hl, heq⟩ := hend
    obtain ⟨-, rfl⟩ := Prod.mk.inj (Option.some.inj heq)
    have htime' : Skips [] .value [l₁] := .last hl₁ rfl
    have hkey' : Skips [] .value [l₂] := .last hl₂ rfl
    have hpayload' := (hvalue.item (Json.skips_closeArray hl)).comma hc₂
    refine ⟨l₁ :: c₁ :: l₂ :: c₂ :: (value ++ [l]), by simp,
      (htime'.item ((hkey'.item hpayload').comma hc₁)).firstItem ?_⟩
    rintro l ⟨⟩ hclose
    rw [hclose] at hl₁
    simp [Json.startValue] at hl₁
  next => simp at hend

/-- The lexemes of a line of a log are one value. -/
theorem skips_of_readFields {ls : List Lexeme} {fields : Fields} (h : readFields ls = some fields) :
    Skips [] .value ls := by
  cases ls with
  | nil => simp [readFields] at h
  | cons l ls =>
      simp only [readFields] at h
      split at h
      next fields' hrecord =>
        split at hrecord
        next htoken =>
          obtain ⟨taken, rfl, hskips⟩ := skips_of_readMembers hrecord
          have hm : Json.move .value l.token = .ok (.opening .object) := by
            rw [htoken]
            rfl
          rw [List.append_nil]
          exact .next hm rfl hskips
        next htoken =>
          obtain ⟨taken, rfl, hskips⟩ := skips_of_readItems hrecord
          have hm : Json.move .value l.token = .ok (.opening .array) := by
            rw [htoken]
            rfl
          rw [List.append_nil]
          exact .next hm rfl hskips
        next => simp at hrecord
      next => simp at h

end LogLine

/-! ## Lines of a stream -/

namespace Record

variable {depth room : Nat} {ls rest : List Lexeme}

theorem skips_of_readType {type : RecordType} (h : readType ls = .ok (type, rest)) :
    ∃ l, ls = l :: rest ∧ Json.startValue l.token = .ok .scalar := by
  cases ls with
  | nil => simp [readType] at h
  | cons l ls =>
      rw [readType] at h
      split at h
      · simp at h
      next hl =>
        split at h
        · simp at h
        next name _ =>
          split at h
          · obtain ⟨-, rfl⟩ := Prod.mk.inj (Except.ok.inj h)
            exact ⟨l, rfl, hl⟩
          · simp at h
        · simp at h
      · simp at h

/-- What is needed where a member may stand. -/
def AwaitsMember (need : Need) : Prop := need = .firstKey ∨ need = .key ∨ need = .moreMembers

theorem move_member {need : Need} {t : Json.Token} {m : Json.Move} (hneed : AwaitsMember need)
    (h : Json.move need t = .ok m) : m = .closing ∨ m = .separator .key ∨ m = .key := by
  obtain rfl | rfl | rfl := hneed <;> cases t <;> simp [Json.move, Json.startKey] at h <;> simp [← h]

theorem move_colon {t : Json.Token} {m : Json.Move} (h : Json.move .colon t = .ok m) :
    m = .separator .value := by
  rw [Json.move] at h
  split at h
  · exact (Except.ok.inj h).symm
  · simp at h

/-- A member in front of the rest of its object. -/
theorem skips_member {need : Need} {l colon : Lexeme} {m m' : Json.Move} {value ls : List Lexeme}
    (hneed : AwaitsMember need) (hm : Json.move need l.token = .ok m) (hopen : m ≠ .closing)
    (hgoing : ∀ next, m ≠ .separator next) (hcolon : Json.move .colon colon.token = .ok m')
    (hvalue : Skips [] .value value) (h : Skips [.object] .moreMembers ls) :
    Skips [.object] need (l :: colon :: (value ++ ls)) := by
  obtain rfl : m = .key := by simpa [hopen, hgoing] using move_member hneed hm
  obtain rfl := move_colon hcolon
  exact .next hm rfl (.next hcolon rfl (hvalue.item h))

theorem skips_of_readMembers {type : Option RecordType} {members : List (String × Value)} {need : Need}
    {found : Option RecordType × List (String × Value)}
    (h : readMembers room type members need ls = .ok (found, rest)) (hneed : AwaitsMember need) :
    ∃ taken, ls = taken ++ rest ∧ Skips [.object] need taken := by
  fun_induction readMembers room type members need ls with
  | case1 => simp at h
  | case2 => simp at h
  | case3 type members need l ls hm =>
      obtain ⟨-, rfl⟩ := Prod.mk.inj (Except.ok.inj h)
      exact ⟨[l], rfl, .last hm rfl⟩
  | case4 type members need l ls next hm ih =>
      obtain rfl : next = .key := by simpa using move_member hneed hm
      obtain ⟨taken, rfl, hskips⟩ := ih h (.inr (.inl rfl))
      exact ⟨l :: taken, rfl, .next hm rfl hskips⟩
  | case5 => simp at h
  | case6 => simp at h
  | case7 => simp at h
  | case8 => simp at h
  | case9 type members need l m hopen hgoing hm colon ls m' hcolon _ type' rest' htype _ ih =>
      obtain ⟨value, rfl, hvalue⟩ := skips_of_readType htype
      obtain ⟨taken, rfl, hskips⟩ := ih h (.inr (.inr rfl))
      exact ⟨l :: colon :: ([value] ++ taken), by simp,
        skips_member hneed hm hopen hgoing hcolon (.last hvalue rfl) hskips⟩
  | case10 => simp at h
  | case11 type members need l m hopen hgoing hm key hkey colon ls m' hcolon _ v rest' hread ih =>
      obtain ⟨value, rfl, hvalue⟩ := Json.skips_of_readValue hread
      obtain ⟨taken, rfl, hskips⟩ := ih h (.inr (.inr rfl))
      exact ⟨l :: colon :: (value ++ taken), by simp,
        skips_member hneed hm hopen hgoing hcolon hvalue hskips⟩
  | case12 => simp at h

/-- What is needed where an item may stand. -/
def AwaitsItem (need : Need) : Prop := need = .firstItem ∨ need = .value ∨ need = .moreItems

theorem next_of_separator {need next : Need} {t : Json.Token} (hneed : AwaitsItem need)
    (h : Json.move need t = .ok (.separator next)) : next = .value := by
  obtain rfl | rfl | rfl := hneed <;> cases t <;> simp [Json.move, Json.startValue] at h
  exact h.symm

/-- An item in front of the rest of its array. -/
theorem skips_item {need : Need} {l : Lexeme} {m : Json.Move} {value taken : List Lexeme}
    (hneed : AwaitsItem need) (hm : Json.move need l.token = .ok m) (hopen : m ≠ .closing)
    (hgoing : ∀ next, m ≠ .separator next) (hfirst : value.head? = some l)
    (hvalue : Skips [] .value value) (h : Skips [.array] .moreItems taken) :
    Skips [.array] need (value ++ taken) := by
  have hitem := hvalue.item h
  obtain rfl | rfl | rfl := hneed
  · refine hitem.firstItem ?_
    rw [List.head?_append, hfirst]
    rintro l' ⟨⟩ hclose
    rw [hclose] at hm
    exact hopen (Except.ok.inj hm).symm
  · exact hitem
  · obtain ⟨-, hend⟩ | ⟨-, hcomma⟩ : (l.token ≠ .comma ∧ m = .closing) ∨
        l.token = .comma ∧ m = .separator .value := by
      cases ht : l.token <;> simp [ht, Json.move] at hm ⊢
      all_goals exact hm.symm
    · exact absurd hend hopen
    · exact absurd hcomma (hgoing _)

theorem head?_of_append {l : Lexeme} {ls value rest : List Lexeme} (h : l :: ls = value ++ rest)
    (hvalue : Skips [] .value value) : value.head? = some l := by
  cases value with
  | nil => cases hvalue
  | cons l' value =>
      obtain ⟨rfl, -⟩ := List.cons.inj h
      rfl

theorem skips_of_readItems {items found : List Value} {need : Need}
    (h : readItems room items need ls = .ok (found, rest)) (hneed : AwaitsItem need) :
    ∃ taken, ls = taken ++ rest ∧ Skips [.array] need taken := by
  fun_induction readItems room items need ls with
  | case1 => simp at h
  | case2 => simp at h
  | case3 items need l ls hm =>
      obtain ⟨-, rfl⟩ := Prod.mk.inj (Except.ok.inj h)
      exact ⟨[l], rfl, .last hm rfl⟩
  | case4 items need l ls next hm ih =>
      obtain rfl := next_of_separator hneed hm
      obtain ⟨taken, rfl, hskips⟩ := ih h (.inr (.inl rfl))
      exact ⟨l :: taken, rfl, .next hm rfl hskips⟩
  | case5 => simp at h
  | case6 items need l ls m hopen hgoing hm v rest' hread ih =>
      obtain ⟨value, hls, hvalue⟩ := Json.skips_of_readValue hread
      obtain ⟨taken, rfl, hskips⟩ := ih h (.inr (.inr rfl))
      exact ⟨value ++ taken, by rw [hls, List.append_assoc],
        skips_item hneed hm hopen hgoing (head?_of_append hls hvalue) hvalue hskips⟩

theorem skips_of_read {record : Record} (h : read depth room ls = .ok (record, rest)) :
    ∃ taken, ls = taken ++ rest ∧ Skips [] .value taken := by
  cases ls with
  | nil => simp [read] at h
  | cons l ls =>
      simp only [read] at h
      split at h
      · simp at h
      next hl =>
        split at h
        · simp at h
        next type members rest' hread =>
          split at h
          · obtain ⟨-, rfl⟩ := Prod.mk.inj (Except.ok.inj h)
            obtain ⟨taken, rfl, hskips⟩ := skips_of_readMembers hread (.inl rfl)
            exact ⟨l :: taken, rfl, .next hl rfl hskips⟩
          · simp at h
        · simp at h
      next hl =>
        split at h
        · simp at h
        next first ls =>
          split at h
          · simp at h
          next hfirst =>
            split at h
            · simp at h
            next type rest₁ htype =>
              split at h
              · simp at h
              next values rest₂ hitems =>
                split at h
                · obtain ⟨-, rfl⟩ := Prod.mk.inj (Except.ok.inj h)
                  obtain ⟨l', heq, hl'⟩ := skips_of_readType htype
                  obtain ⟨rfl, rfl⟩ := List.cons.inj heq
                  obtain ⟨taken, rfl, hskips⟩ := skips_of_readItems hitems (.inr (.inr rfl))
                  have hname : Skips [] .value [first] := .last hl' rfl
                  refine ⟨l :: ([first] ++ taken), by simp, .next hl rfl ((hname.item hskips).firstItem ?_)⟩
                  rintro l'' ⟨⟩
                  exact hfirst
                · simp at h
      next =>
        split at h <;> simp at h

theorem skips_of_readAll {records found : List Record} {need : Need}
    (h : readAll depth room records need ls = .ok (found, rest)) (hneed : AwaitsItem need) :
    ∃ taken, ls = taken ++ rest ∧ Skips [.array] need taken := by
  fun_induction readAll depth room records need ls with
  | case1 => simp at h
  | case2 => simp at h
  | case3 records need l ls hm =>
      obtain ⟨-, rfl⟩ := Prod.mk.inj (Except.ok.inj h)
      exact ⟨[l], rfl, .last hm rfl⟩
  | case4 records need l ls next hm ih =>
      obtain rfl := next_of_separator hneed hm
      obtain ⟨taken, rfl, hskips⟩ := ih h (.inr (.inl rfl))
      exact ⟨l :: taken, rfl, .next hm rfl hskips⟩
  | case5 => simp at h
  | case6 records need l ls m hopen hgoing hm record rest' hread ih =>
      obtain ⟨value, hls, hvalue⟩ := skips_of_read hread
      obtain ⟨taken, rfl, hskips⟩ := ih h (.inr (.inr rfl))
      exact ⟨value ++ taken, by rw [hls, List.append_assoc],
        skips_item hneed hm hopen hgoing (head?_of_append hls hvalue) hvalue hskips⟩

/-- The lexemes of a line of a stream are one value. -/
theorem skips_of_ofLexemes {found : List Record} (h : ofLexemes depth ls = .ok found) :
    Skips [] .value ls := by
  cases ls with
  | nil => simp [ofLexemes] at h
  | cons l ls =>
      simp only [ofLexemes] at h
      split at h
      next hl =>
        cases hread : readAll depth (Json.maxDepth - 2) [] .firstItem ls with
        | error fault => simp [hread] at h
        | ok read =>
            obtain ⟨records, rest⟩ := read
            cases rest with
            | cons => simp [hread] at h
            | nil =>
                obtain ⟨taken, rfl, hskips⟩ := skips_of_readAll hread (.inl rfl)
                have hm : Json.move .value l.token = .ok (.opening .array) := by
                  rw [hl]
                  rfl
                rw [List.append_nil]
                exact .next hm rfl hskips
      next hl =>
        cases hread : read depth (Json.maxDepth - 1) (l :: ls) with
        | error fault => simp [hread, Except.map] at h
        | ok read =>
            obtain ⟨record, rest⟩ := read
            cases rest with
            | cons => simp [hread, Except.map] at h
            | nil =>
                obtain ⟨taken, heq, hskips⟩ := skips_of_read hread
                rw [heq, List.append_nil]
                exact hskips

end Record

end EventReplay
