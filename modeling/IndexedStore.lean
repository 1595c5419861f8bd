import IndexedStore.Name.Quoted
import IndexedStore.Settings.File
import IndexedStore.Proofs.Store.Rollback
import IndexedStore.Proofs.Table.Acceptance
import IndexedStore.Proofs.Table.Noninterference
import IndexedStore.Proofs.Table.Positions
import IndexedStore.Proofs.Table.Runs
import IndexedStore.Proofs.Payload.Records
import IndexedStore.Proofs.Payload.Upgrades
import IndexedStore.Proofs.Store.Steering
import IndexedStore.Proofs.Store.Searching
import IndexedStore.Proofs.Table.Keepers
import IndexedStore.Proofs.Table.Oversize
import IndexedStore.Proofs.Table.Confinement
import IndexedStore.Proofs.Table.HalfOpen
import IndexedStore.Proofs.Table.Freshness
import IndexedStore.Proofs.JsonTexts
import IndexedStore.Proofs.NameSpellings
import IndexedStore.Proofs.Payload.Thrift
import IndexedStore.Proofs.Table.Comparing
import IndexedStore.Proofs.Table.Seeking
import IndexedStore.Proofs.Table.Company
import IndexedStore.Proofs.SessionTables
import IndexedStore.Proofs.HexTexts
import IndexedStore.Proofs.Store.Snapshots
import IndexedStore.Proofs.Table.Declaring
import IndexedStore.Proofs.JsonGrammar
import IndexedStore.Proofs.SettingsTexts
