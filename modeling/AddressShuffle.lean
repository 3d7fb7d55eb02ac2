import AddressShuffle.Range.Text
import AddressShuffle.Random.Words
import AddressShuffle.Shuffle.Addresses
import AddressShuffle.Shuffle.Records
import AddressShuffle.Pool.Records
import AddressShuffle.Main
import AddressShuffle.Proofs.Range.Addresses
import AddressShuffle.Proofs.Shuffle.Run
import AddressShuffle.Proofs.Random.Script
import AddressShuffle.Proofs.Shuffle.Enumeration
import AddressShuffle.Proofs.Shuffle.Orderings
import AddressShuffle.Proofs.Shuffle.Dense
import AddressShuffle.Proofs.Pool.Agreement
import AddressShuffle.Proofs.Pool.Assignment
import AddressShuffle.Proofs.Pool.Source
import AddressShuffle.Proofs.Pool.History
import AddressShuffle.Proofs.Pool.Conservation
import AddressShuffle.Proofs.Pool.Supply
import AddressShuffle.Proofs.Pool.Retention
import AddressShuffle.Proofs.Command.Output
import AddressShuffle.Proofs.Shuffle.Displacement
import AddressShuffle.Proofs.Pool.LatestUse
import AddressShuffle.Proofs.Range.Text
import AddressShuffle.Proofs.Network.Mask
import AddressShuffle.Proofs.Range.Bounds
import AddressShuffle.Proofs.Shuffle.Checked
import AddressShuffle.Proofs.Shuffle.Modes
import AddressShuffle.Proofs.Pool.FirstFree
import AddressShuffle.Proofs.Pool.Reservation
import AddressShuffle.Proofs.Pool.Partition
import AddressShuffle.Proofs.Pool.Eviction
import AddressShuffle.Proofs.Range.Network
import AddressShuffle.Proofs.Range.Hosts
import AddressShuffle.Proofs.Pool.Search
import AddressShuffle.Proofs.Config.Faults
import AddressShuffle.Proofs.Config.Text
import AddressShuffle.Proofs.Range.Identity
import AddressShuffle.Proofs.Pool.Copies
