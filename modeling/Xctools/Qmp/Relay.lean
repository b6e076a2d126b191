import Xctools.Machine.Run

/-! The relay of `qmp_helper.c`. Clients of a unix socket come one after the other; what they write goes to the device
model in a stub domain, in datagrams, and so does the news that a client has gone or has come. -/
namespace Xctools.Qmp
open Machine

section Code

abbrev Bytes := List UInt8

/-- "live" -/
def argoMagicConnect : Bytes := [0x6c,0x69,0x76,0x65]

/-- "dead" -/
def argoMagicDisconnect : Bytes := [0x64,0x65,0x61,0x64]

/-- What `read` of the socket of the client gives, and what becomes of it: whether `argo_sendto` takes the whole datagram,
and whether `accept` brings another client. -/
inductive UnixInput
  | failed
  | eof (told accepted toldAgain : Bool)
  | data (chunk : Bytes) (taken : Bool)
  deriving DecidableEq, Repr

/-- What `argo_recvfrom` gives, and how much of it `write` takes, if it does not fail. -/
inductive ArgoInput
  | failed
  | datagram (msg : Bytes) (source : ℕ) (written : Option ℕ)
  deriving DecidableEq, Repr

/-- What a round of the loop finds ready. -/
structure Ready where
  unix : Option UnixInput := none
  argo : Option ArgoInput := none
  deriving DecidableEq, Repr

/-- What was read from a client, piece by piece, and what was written to it. -/
structure Client where
  chunks : List Bytes := []
  written : Bytes := []
  deriving DecidableEq, Repr

/-- `struct qmp_helper_state`, with the datagrams sent, the clients that have gone and the one there is. -/
structure Helper where
  remoteAddr : ℕ
  sent : List (ℕ × Bytes) := []
  gone : List Client := []
  client : Client := {}
  deriving DecidableEq, Repr

/-- `argo_sendto`. -/
def Helper.argoSendto (s : Helper) (msg : Bytes) (taken : Bool) : Helper :=
  if taken then { s with sent := s.sent ++ [(s.remoteAddr,msg)] } else s

/-- A piece is read from the client. -/
def Helper.took (s : Helper) (chunk : Bytes) : Helper :=
  { s with client := { s.client with chunks := s.client.chunks ++ [chunk] } }

/-- Another client takes the place of the one that has gone. -/
def Helper.next (s : Helper) : Helper := { s with gone := s.gone ++ [s.client], client := {} }

/-- `qmph_unix_to_argo`, and what follows when it returns `ENOTCONN`. The helper ends with an error. -/
def Helper.unixToArgo (s : Helper) : UnixInput → Except Helper Helper
  | .failed => .error s
  | .eof told accepted toldAgain =>
    let s := s.argoSendto argoMagicDisconnect told
    -- the result of the two notices is not looked at
    if accepted then .ok (s.next.argoSendto argoMagicConnect toldAgain) else .error s
  | .data chunk taken => if taken then .ok ((s.took chunk).argoSendto chunk true) else .error (s.took chunk)

/-- `qmph_argo_to_unix`. -/
def Helper.argoToUnix (s : Helper) : ArgoInput → Except Helper Helper
  | .failed => .error s
  | .datagram msg source written =>
    let s := { s with remoteAddr := source }
    match written with
    | none => .error s
    | some n => .ok { s with client := { s.client with written := s.client.written ++ msg.take n } }

/-- The first half of a round of the loop of `main`, -/
def Helper.unixReady (s : Helper) : Option UnixInput → Except Helper Helper
  | none => .ok s
  | some input => s.unixToArgo input

/-- and the other. -/
def Helper.argoReady (s : Helper) : Option ArgoInput → Except Helper Helper
  | none => .ok s
  | some input => s.argoToUnix input

def Helper.round (s : Helper) (r : Ready) : Except Helper Helper := do
  let s ← s.unixReady r.unix
  s.argoReady r.argo

end Code

section Listening

/-- What the other side makes of the datagrams: what the clients before wrote, and what the one there is has written. -/
structure Heard where
  before : List Bytes := []
  now : Option Bytes := some []
  deriving DecidableEq, Repr

/-- The two notices are taken for what they say, and all else for what the client writes. -/
def Heard.hear (s : Heard) (msg : Bytes) : Heard :=
  if msg = argoMagicConnect then ⟨s.before ++ s.now.toList,some []⟩
  else if msg = argoMagicDisconnect then ⟨s.before ++ s.now.toList,none⟩
  else ⟨s.before,s.now.map (· ++ msg)⟩

/-- How much was heard. -/
def Heard.size (s : Heard) : ℕ := s.before.flatten.length + (s.now.map List.length).getD 0

def Client.stream (c : Client) : Bytes := c.chunks.flatten

def IsNotice (msg : Bytes) : Prop := msg = argoMagicConnect ∨ msg = argoMagicDisconnect

/-- What a listener at the address hears of the helper. -/
def Helper.heardAt (s : Helper) (addr : ℕ) : Heard :=
  ((s.sent.filter (·.1 = addr)).map Prod.snd).foldl Heard.hear {}

/-- What the clients wrote. -/
def Helper.told (s : Helper) : Heard := ⟨s.gone.map Client.stream,some s.client.stream⟩

/-- All pieces that were read. -/
def Helper.chunks (s : Helper) : List Bytes := s.gone.flatMap Client.chunks ++ s.client.chunks

/-- The notices are taken, and all datagrams come from the one device model. -/
def Ready.Steady (addr : ℕ) (r : Ready) : Prop :=
  (∀ told accepted toldAgain, r.unix = some (.eof told accepted toldAgain) → told = true ∧ toldAgain = true) ∧
    ∀ msg source written, r.argo = some (.datagram msg source written) → source = addr

variable {s s' : Helper} {addr : ℕ} {r : Ready} {rs : List Ready} {input : UnixInput} {msg chunk : Bytes} {t : Heard}

lemma flatten_streams (l : List Client) : (l.map Client.stream).flatten = (l.flatMap Client.chunks).flatten := by
  induction l with
  | nil => rfl
  | cons c l ih =>
    rw [List.map_cons, List.flatten_cons, ih, List.flatMap_cons, List.flatten_append]
    rfl

lemma size_told (s : Helper) : s.told.size = s.chunks.flatten.length := by
  rw [Helper.chunks, List.flatten_append, List.length_append, ← flatten_streams]
  rfl

lemma Heard.size_hear_notice (hmsg : IsNotice msg) : (t.hear msg).size = t.size := by
  unfold hear size
  rcases hmsg with rfl | rfl
  · cases t.now <;> simp
  · rw [if_neg (by decide), if_pos rfl]
    cases t.now <;> simp

lemma Heard.size_hear_le (hmsg : ¬ IsNotice msg) : (t.hear msg).size ≤ t.size + msg.length := by
  obtain ⟨hconnect,hdisconnect⟩ := not_or.mp hmsg
  unfold hear size
  rw [if_neg hconnect, if_neg hdisconnect]
  cases t.now <;> simp
  omega

/-- What holds after every round: no more is heard than was said, and less if a piece was taken for a notice. -/
structure Relaying (addr : ℕ) (s : Helper) : Prop where
  remote : s.remoteAddr = addr
  bounded : (s.heardAt addr).size ≤ s.told.size
  lost : (∃ chunk ∈ s.chunks, IsNotice chunk) → (s.heardAt addr).size < s.told.size
  heard : (∀ chunk ∈ s.chunks, ¬ IsNotice chunk) → s.heardAt addr = s.told

lemma heardAt_argoSendto (hs : s.remoteAddr = addr) (msg : Bytes) :
    (s.argoSendto msg true).heardAt addr = (s.heardAt addr).hear msg := by
  simp [Helper.heardAt, Helper.argoSendto, hs]

lemma Relaying.data (hs : Relaying addr s) (chunk : Bytes) : Relaying addr ((s.took chunk).argoSendto chunk true) := by
  have hheard : ((s.took chunk).argoSendto chunk true).heardAt addr = (s.heardAt addr).hear chunk :=
    heardAt_argoSendto hs.remote chunk
  have hchunks : ((s.took chunk).argoSendto chunk true).chunks = s.chunks ++ [chunk] :=
    (List.append_assoc _ _ _).symm
  have htold : ((s.took chunk).argoSendto chunk true).told = ⟨s.told.before,some (s.client.stream ++ chunk)⟩ := by
    simp [Helper.told, Helper.took, Helper.argoSendto, Client.stream]
  have hsize : ((s.took chunk).argoSendto chunk true).told.size = s.told.size + chunk.length := by
    rw [size_told, size_told, hchunks, List.flatten_append, List.length_append, List.flatten_singleton]
  by_cases hnotice : IsNotice chunk
  · have hpos : 0 < chunk.length := by rcases hnotice with rfl | rfl <;> decide
    have hless : ((s.heardAt addr).hear chunk).size < s.told.size + chunk.length := by
      rw [Heard.size_hear_notice hnotice]
      exact Nat.lt_of_le_of_lt hs.bounded (Nat.lt_add_of_pos_right hpos)
    refine ⟨hs.remote,?_,fun _ => ?_,fun h => ?_⟩
    · rw [hheard, hsize]
      exact Nat.le_of_lt hless
    · rw [hheard, hsize]
      exact hless
    · exact absurd hnotice (h chunk (by rw [hchunks]; simp))
  · have hle := Heard.size_hear_le (t := s.heardAt addr) hnotice
    refine ⟨hs.remote,?_,fun ⟨c,hc,hcn⟩ => ?_,fun h => ?_⟩
    · rw [hheard, hsize]
      exact Nat.le_trans hle (Nat.add_le_add_right hs.bounded _)
    · rw [hchunks, List.mem_append, List.mem_singleton] at hc
      have hold := hs.lost ⟨c,hc.resolve_right fun heq => hnotice (heq ▸ hcn),hcn⟩
      rw [hheard, hsize]
      exact Nat.lt_of_le_of_lt hle (Nat.add_lt_add_right hold _)
    · rw [hchunks] at h
      obtain ⟨hconnect,hdisconnect⟩ := not_or.mp hnotice
      rw [hheard, htold, hs.heard fun c hc => h c (List.mem_append_left _ hc), Heard.hear, if_neg hconnect,
        if_neg hdisconnect]
      rfl

lemma Relaying.eof (hs : Relaying addr s) :
    Relaying addr ((s.argoSendto argoMagicDisconnect true).next.argoSendto argoMagicConnect true) := by
  have hheard : ((s.argoSendto argoMagicDisconnect true).next.argoSendto argoMagicConnect true).heardAt addr =
      ((s.heardAt addr).hear argoMagicDisconnect).hear argoMagicConnect := by
    rw [heardAt_argoSendto (s := (s.argoSendto argoMagicDisconnect true).next) hs.remote,
      ← heardAt_argoSendto hs.remote]
    rfl
  have hchunks : ((s.argoSendto argoMagicDisconnect true).next.argoSendto argoMagicConnect true).chunks = s.chunks := by
    simp [Helper.chunks, Helper.next, Helper.argoSendto]
  have htold : ((s.argoSendto argoMagicDisconnect true).next.argoSendto argoMagicConnect true).told =
      ⟨s.told.before ++ [s.client.stream],some []⟩ := by
    simp [Helper.told, Helper.next, Helper.argoSendto, Client.stream]
  have hsize : (((s.heardAt addr).hear argoMagicDisconnect).hear argoMagicConnect).size = (s.heardAt addr).size := by
    rw [Heard.size_hear_notice (.inl rfl), Heard.size_hear_notice (.inr rfl)]
  refine ⟨hs.remote,?_,?_,?_⟩
  · rw [hheard, hsize, size_told, hchunks, ← size_told]
    exact hs.bounded
  · rw [hheard, hsize, size_told, hchunks, ← size_told]
    exact hs.lost
  · intro h
    rw [hchunks] at h
    rw [hheard, htold, hs.heard h]
    simp [Heard.hear, Helper.told, argoMagicConnect, argoMagicDisconnect]

lemma Relaying.round (hs : Relaying addr s) (hr : r.Steady addr) (h : s.round r = .ok s') : Relaying addr s' := by
  obtain ⟨s₁,hunix,hargo⟩ := bind_eq_ok.mp h
  have hs₁ : Relaying addr s₁ := by
    cases hr₁ : r.unix with
    | none =>
      rw [hr₁] at hunix
      exact Except.ok.inj hunix ▸ hs
    | some input =>
      rw [hr₁] at hunix
      cases input with
      | failed => cases hunix
      | eof told accepted toldAgain =>
        obtain ⟨rfl,rfl⟩ := hr.1 told accepted toldAgain hr₁
        cases accepted with
        | false => cases hunix
        | true => exact Except.ok.inj hunix ▸ hs.eof
      | data chunk taken =>
        cases taken with
        | false => cases hunix
        | true => exact Except.ok.inj hunix ▸ hs.data chunk
  cases hr₂ : r.argo with
  | none =>
    rw [hr₂] at hargo
    exact Except.ok.inj hargo ▸ hs₁
  | some input =>
    rw [hr₂] at hargo
    cases input with
    | failed => cases hargo
    | datagram msg source written =>
      obtain rfl := hr.2 msg source written hr₂
      cases written with
      | none => cases hargo
      | some n => exact Except.ok.inj hargo ▸ ⟨rfl,hs₁.bounded,hs₁.lost,hs₁.heard⟩

lemma relaying_run (hs : Relaying addr s) (hrs : ∀ r ∈ rs, r.Steady addr) (h : perform Helper.round s rs = .ok s') :
    Relaying addr s' := by
  induction rs generalizing s with
  | nil => exact Except.ok.inj h ▸ hs
  | cons r rs ih =>
    obtain ⟨hr,hrs⟩ := List.forall_mem_cons.mp hrs
    obtain ⟨s₁,hround,hrest⟩ := (perform_cons_eq_ok Helper.round).mp h
    exact ih (hs.round hr hround) hrs hrest

/-- The device model can tell the clients, and what each of them wrote, from the datagrams, as long as the helper runs,
if and only if no piece that was read is the text of a notice. -/
theorem relay_heard_iff (hrs : ∀ r ∈ rs, r.Steady addr) (h : perform Helper.round { remoteAddr := addr } rs = .ok s) :
    s.heardAt addr = s.told ↔ ∀ chunk ∈ s.chunks, ¬ IsNotice chunk := by
  have hs : Relaying addr s := relaying_run ⟨rfl,Nat.le_refl _,fun ⟨_,hc,_⟩ => (by cases hc),fun _ => rfl⟩ hrs h
  refine ⟨fun heq chunk hchunk hnotice => ?_,hs.heard⟩
  have hless := hs.lost ⟨chunk,hchunk,hnotice⟩
  rw [heq] at hless
  exact Nat.lt_irrefl _ hless

/-- A client comes after another, and writes the text of a notice. -/
def deadRounds : List Ready :=
  [⟨some (.data [1] true),none⟩,⟨some (.eof true true true),some (.datagram [2] 7 (some 1))⟩,
    ⟨some (.data argoMagicDisconnect true),none⟩]

/-- It is taken for one that has gone. -/
theorem relay_heard_dead : ∃ s, perform Helper.round { remoteAddr := 7 } deadRounds = .ok s ∧ s.heardAt 7 ≠ s.told := by
  have hsteady : ∀ r ∈ deadRounds, r.Steady 7 := by simp [deadRounds, Ready.Steady]
  refine ⟨_,rfl,fun heq => ?_⟩
  exact (@relay_heard_iff _ 7 deadRounds hsteady rfl).mp heq argoMagicDisconnect (by decide) (.inr rfl)

end Listening

end Xctools.Qmp
