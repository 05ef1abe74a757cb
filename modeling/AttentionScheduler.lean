import AttentionScheduler.Proofs.Advice
import AttentionScheduler.Proofs.Holding
import AttentionScheduler.Proofs.LateStart
import AttentionScheduler.Proofs.Placement
import AttentionScheduler.Proofs.Policy
import AttentionScheduler.Proofs.Promotion
import AttentionScheduler.Proofs.Refinement
import AttentionScheduler.Proofs.Refreshing
import AttentionScheduler.Proofs.Renaming
import AttentionScheduler.Proofs.Replaying
import AttentionScheduler.Proofs.Rounds
import AttentionScheduler.Proofs.Safety
import AttentionScheduler.Proofs.Reordering
import AttentionScheduler.Proofs.Spacing
import AttentionScheduler.Proofs.TickShift
import AttentionScheduler.Proofs.Tracking
import AttentionScheduler.Proofs.Withdrawals
import AttentionScheduler.Proofs.Emergence
import AttentionScheduler.Proofs.Shares
import AttentionScheduler.Proofs.Rings
import AttentionScheduler.Proofs.Cells
import AttentionScheduler.Proofs.Digests
import AttentionScheduler.Proofs.Acceptance
import AttentionScheduler.Proofs.Founding
import AttentionScheduler.Proofs.Refusal
import AttentionScheduler.Proofs.Omission
