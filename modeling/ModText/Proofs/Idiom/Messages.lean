import ModText.Idiom.Chat
import ModText.Proofs.Idiom.Positions

/-!
# The positions of messages

A message is found at the call that sends it, five positions behind the text. A call that stands too
close to the start of its stream has no text, and two calls never share an entry, however close they
stand to each other: a method has one message for each position at which a call sends a text.
-/

namespace ModText

/-- A call at the position sends the text: it calls a member of the right name, and the text is pushed
five positions in front of it. -/
def SendsAt (code : List Instruction) (i : Nat) (text : String) : Prop :=
  (∃ m, CallsAt code i m ∧ m.name = "NewText") ∧
    instructionAt? code (i - 5) = some (.pushString text)

section

variable {code : List Instruction} {i : Nat} {text : String}

theorem message?_eq_some {s : Site} (h : siteAt? code i = some s) :
    s.message? = some text ↔ SendsAt code i text := by
  have hhere : instructionAt? code i = some s.here := Site.here_of_siteAt? h
  have hcalled : s.here.callsNamed "NewText" = true ↔ ∃ m, CallsAt code i m ∧ m.name = "NewText" := by
    simp only [Instruction.callsNamed_eq_true, CallsAt, hhere, Option.some_inj]
  have hback : s.before[4]? = instructionAt? code (i - 5) := Site.getElem?_before h 4
  rw [Site.message?, SendsAt, ← hcalled, messageDistance, hback]
  split
  · rename_i hcalls
    simp [hcalls, Option.bind_eq_some_iff, Instruction.string?_eq_some]
  · rename_i hcalls
    simp [hcalls]

theorem mem_findings_message? : (i, text) ∈ findings Site.message? code ↔ SendsAt code i text := by
  rw [mem_findings]
  constructor
  · rintro ⟨s, hs, hfound⟩
    exact (message?_eq_some hs).1 hfound
  · intro hsends
    obtain ⟨s, hs⟩ : ∃ s, siteAt? code i = some s := by
      obtain ⟨⟨m, hm | hm, -⟩, -⟩ := hsends
      all_goals exact exists_siteAt? hm
    exact ⟨s, hs, (message?_eq_some hs).2 hsends⟩

end

/-- The messages of a method, with the positions of the calls that send them. -/
def Method.sent (m : Method) : List (Nat × String) :=
  findings Site.message? (m.instructions?.getD [])

theorem Method.mem_sent {m : Method} {i : Nat} {text : String} :
    (i, text) ∈ m.sent ↔ ∃ body, m.body = some body ∧ SendsAt body.instructions i text := by
  rw [sent, mem_findings_message?, instructions?]
  cases m.body with
  | none =>
    constructor
    · rintro ⟨⟨_, hm | hm, -⟩, -⟩
      all_goals cases hm
    · rintro ⟨_, hbody, -⟩
      cases hbody
  | some body => simp

/-- A method has a record if it sends anything. -/
theorem chatText?_eq (t : TypeDef) (m : Method) :
    chatText? t m = if m.sent ≠ [] then
      some ⟨t.name, t.namespaceName, m.name, m.sent.map Prod.snd⟩ else none := by
  have hmessages : messages (m.instructions?.getD []) = m.sent.map Prod.snd :=
    (map_snd_findings Site.message? _).symm
  rw [chatText?]
  cases hcode : m.instructions? with
  | none => simp [Method.sent, hcode, findings, sites, Site.sitesFrom]
  | some code =>
    rw [hcode, Option.getD_some] at hmessages
    simp [hmessages]

/-- **Messages are told by the positions of calls.** A type has one record for each method that sends
anything, in the order of the methods, and its contents are the texts that the calls of this method
send, in the order of the calls: one for each of them, and no other text. -/
theorem chatTexts_at_calls (t : TypeDef) :
    ∃ sent : Method → List (Nat × String),
      (∀ m, ((sent m).map Prod.fst).Pairwise (· < ·) ∧ ∀ i text,
        (i, text) ∈ sent m ↔ ∃ body, m.body = some body ∧ SendsAt body.instructions i text) ∧
      chatTexts t = (t.methods.filter fun m => sent m ≠ []).map fun m =>
        ⟨t.name, t.namespaceName, m.name, (sent m).map Prod.snd⟩ := by
  refine ⟨Method.sent, fun m => ⟨pairwise_findings _ _, fun i text => m.mem_sent⟩, ?_⟩
  rw [chatTexts, ← List.filterMap_eq_map, List.filterMap_filter]
  refine List.filterMap_congr fun m _ => ?_
  simp [chatText?_eq]

/-- Two calls that share the instructions between their texts and themselves: both send. -/
example : messages [.pushString "a", .pushString "b", .other, .other, .other, .call ⟨"Main", "NewText", 5⟩,
    .callVirtual ⟨"Chat", "NewText", 1⟩] = ["a", "b"] := by
  decide

end ModText
